import SuperFunctions.Datafn.Sync.ClientSessions

/-!
# No change is lost

A change at or below a client's stored cursor is its own, or was carried by a reply the client
applied: in every run in which no reply takes a cursor over another client's change.
-/
namespace SuperFunctions.Datafn.Sync.NoLostChange

open Lib.OrderedMap Lib.Transition Datafn.Core Client.Storage Client.ApplyClone
open Client.Cursors Server.Database Server.Clone
open Server.ChangeLog Server.ChangeStreams Server.Pull Server.Sessions Server.SequenceNumbers
open ClientSessions List OMap Option

/-- The client knows every change of the resource up to the cursor. -/
def Covered (commits : List Commit) (client : Nat) (delivered : List ChangeEntry)
    (resource : String) (cursor : Nat) : Prop :=
  ∀ c ∈ commits, c.entry.resource = resource → c.entry.serverSeq ≤ cursor →
    c.client = client ∨ c.entry ∈ delivered

/-- Not one of the two names under which the client keeps cursors of another kind. -/
def IsSyncKey (resource : String) : Prop :=
  resource ≠ globalCursorKey ∧ resource ≠ actorFeedCursorKey

def NothingLost (s : SyncState) : Prop :=
  ∀ id client, s.clients.get id = some client → ∀ resource, IsSyncKey resource →
    ∀ cursor, client.store.cursors resource = some cursor →
      Covered s.server.commits id client.delivered resource cursor

/-! ## The condition -/

def storedCursor (store : ClientStore) (resource : String) : Nat :=
  (store.cursors resource).getD 0

section Condition

variable (D : Deployment) (s : SyncState)

/-- Between the stored cursor and the numbers of the push there are only own changes. -/
def OnlyOwnUpTo (push : PushRun) (store : ClientStore) : Prop :=
  ∀ e ∈ push.resourceSeqs.entries, ∀ c ∈ s.server.commits, c.entry.resource = e.1 →
    storedCursor store e.1 < c.entry.serverSeq → c.entry.serverSeq ≤ e.2 →
    c.client = push.client

/-- The change comes after everything that other clients have stored, asked for or read. -/
def AboveReaders (writer : Nat) (e : ChangeEntry) : Prop :=
  (∀ x ∈ s.clients.entries, x.1 ≠ writer → storedCursor x.2.store e.resource < e.serverSeq) ∧
  (∀ x ∈ s.server.pulls.entries, x.2.client ≠ writer →
    ServerState.requestCursor x.2.request e.resource < e.serverSeq ∧
      ∀ c ∈ (x.2.streams.get e.resource).getD [], c.serverSeq < e.serverSeq) ∧
  ∀ x ∈ s.clones.entries, x.2.client ≠ writer → x.2.table = e.resource →
    ∀ latest ∈ x.2.latestSeq, latest < e.serverSeq

/-- Since the clone read its rows, no other client has changed the table. -/
def RowsCurrent (clone : CloneRun) : Prop :=
  ∀ rowsAt ∈ clone.rowsAt, ∀ c ∈ s.server.commits.drop rowsAt,
    c.entry.resource = clone.table → c.client = clone.client

/-- The clone brings every record another client has changed above the stored cursor. -/
def CarriesGap (clone : CloneRun) (store : ClientStore) : Prop :=
  ∀ rowsAt ∈ clone.rowsAt, ∀ c ∈ s.server.commits.take rowsAt,
    c.entry.resource = clone.table → c.client ≠ clone.client →
    storedCursor store clone.table < c.entry.serverSeq →
    cloneCarries (D.database clone.client (s.server.commits.take rowsAt)) store clone
      c.entry.id = true

/-- No selected change of another client is left out of the page. -/
def ListsForeign (pull : PullRun) (actor : Option ActorView) : Prop :=
  ∀ c ∈ s.server.commits, c.client ≠ pull.client → c.entry ∈ pull.selection.merged →
    pageLists D.isPrivateShareableResource actor c.entry = true

instance (push : PushRun) (store : ClientStore) : Decidable (OnlyOwnUpTo s push store) :=
  inferInstanceAs (Decidable (∀ e ∈ push.resourceSeqs.entries, ∀ c ∈ s.server.commits, _))

instance (writer : Nat) (e : ChangeEntry) : Decidable (AboveReaders s writer e) :=
  inferInstanceAs (Decidable (_ ∧ _ ∧ _))

instance (clone : CloneRun) : Decidable (RowsCurrent s clone) :=
  inferInstanceAs (Decidable (∀ rowsAt ∈ clone.rowsAt, ∀ c ∈ s.server.commits.drop rowsAt, _))

instance (clone : CloneRun) (store : ClientStore) : Decidable (CarriesGap D s clone store) :=
  inferInstanceAs (Decidable (∀ rowsAt ∈ clone.rowsAt, ∀ c ∈ s.server.commits.take rowsAt, _))

instance (pull : PullRun) (actor : Option ActorView) : Decidable (ListsForeign D s pull actor) :=
  inferInstanceAs (Decidable (∀ c ∈ s.server.commits, _))

/-- No reply takes a cursor over another client's change. -/
def SkipsNothing : SyncAction → Prop
  | .acknowledgePush p => ∀ push ∈ s.server.pushes.get p,
      ∀ client ∈ s.clients.get push.client, OnlyOwnUpTo s push client.store
  | .commitMutation p => ∀ push ∈ s.server.pushes.get p, ∀ tx ∈ push.tx,
      ∀ e ∈ tx.written, AboveReaders s push.client e
  | .applyPull k actor _ => ∀ pull ∈ s.server.pulls.get k, ListsForeign D s pull actor
  | .readLatestServerSeq j => ∀ clone ∈ s.clones.get j, RowsCurrent s clone
  | .applyClone j => ∀ clone ∈ s.clones.get j,
      ∀ client ∈ s.clients.get clone.client, CarriesGap D s clone client.store
  | _ => True

instance : (a : SyncAction) → Decidable (SkipsNothing D s a)
  | .acknowledgePush p => inferInstanceAs (Decidable (∀ push ∈ s.server.pushes.get p,
      ∀ client ∈ s.clients.get push.client, OnlyOwnUpTo s push client.store))
  | .commitMutation p => inferInstanceAs (Decidable (∀ push ∈ s.server.pushes.get p,
      ∀ tx ∈ push.tx, ∀ e ∈ tx.written, AboveReaders s push.client e))
  | .applyPull k actor _ => inferInstanceAs (Decidable (∀ pull ∈ s.server.pulls.get k,
      ListsForeign D s pull actor))
  | .readLatestServerSeq j =>
    inferInstanceAs (Decidable (∀ clone ∈ s.clones.get j, RowsCurrent s clone))
  | .applyClone j => inferInstanceAs (Decidable (∀ clone ∈ s.clones.get j,
      ∀ client ∈ s.clients.get clone.client, CarriesGap D s clone client.store))
  | .openClient _ | .startPush _ _ _ | .beginMutation _ | .recordChange _ _
  | .rollbackMutation _ | .losePush _ | .startPull _ _ | .readChanges _ _ | .losePull _
  | .startClone _ _ | .readCloneRows _ | .dropClone _ => isTrue trivial

end Condition

/-! ## Coverage -/

variable {store : ClientStore}

section Coverage

variable {commits : List Commit} {client : Nat} {delivered : List ChangeEntry} {resource : String}
  {cursor : Nat}

section

variable (h : Covered commits client delivered resource cursor)
include h

theorem Covered.deliver (more : List ChangeEntry) :
    Covered commits client (delivered ++ more) resource cursor := by
  intro c hc hr hle
  rcases h c hc hr hle with hown | hold
  · exact .inl hown
  · exact .inr (mem_append_left _ hold)

theorem Covered.commit {added : List Commit} (hadded : ∀ c ∈ added, c.entry.resource = resource →
      c.client = client ∨ cursor < c.entry.serverSeq) :
    Covered (commits ++ added) client delivered resource cursor := by
  intro c hc hr hle
  rcases mem_append.mp hc with hc | hc
  · exact h c hc hr hle
  · rcases hadded c hc hr with hown | hlt
    · exact .inl hown
    · omega

end

theorem Covered.extend {new : Nat} (hpositive : ∀ c ∈ commits, 0 < c.entry.serverSeq)
    (h : ∀ old, store.cursors resource = some old → Covered commits client delivered resource old)
    (hgap : ∀ c ∈ commits, c.entry.resource = resource →
      storedCursor store resource < c.entry.serverSeq → c.entry.serverSeq ≤ new →
      c.client = client ∨ c.entry ∈ delivered) : Covered commits client delivered resource new := by
  intro c hc hr hle
  by_cases hlt : storedCursor store resource < c.entry.serverSeq
  · exact hgap c hc hr hlt hle
  have hstored : c.entry.serverSeq ≤ storedCursor store resource := Nat.le_of_not_lt hlt
  unfold storedCursor at hstored
  cases hold : store.cursors resource with
  | none =>
    have := hpositive c hc
    rw [hold, getD_none] at hstored
    omega
  | some old =>
    rw [hold, getD_some] at hstored
    exact h old hold c hc hr hstored

end Coverage

/-! ## The invariant -/

/-- What a pull has read of one resource: the log's changes, none of another client skipped. -/
structure ReadComplete (commits : List Commit) (pull : PullRun) (resource : String)
    (stream : List ChangeEntry) : Prop where
  sorted : stream.Pairwise fun a b => a.serverSeq ≤ b.serverSeq
  committed : ∀ e ∈ stream, e.resource = resource ∧ ∃ c ∈ commits, c.entry = e
  complete : ∀ e ∈ stream, ∀ c ∈ commits, c.client ≠ pull.client → c.entry.resource = resource →
    ServerState.requestCursor pull.request resource < c.entry.serverSeq →
    c.entry.serverSeq < e.serverSeq → c.entry ∈ stream

/-- What a clone has read of its table. -/
structure CloneRead (commits : List Commit) (clone : CloneRun) : Prop where
  rows : ∀ rowsAt, clone.rowsAt = some rowsAt → rowsAt ≤ commits.length
  latest : ∀ rowsAt, clone.rowsAt = some rowsAt → ∀ latest, clone.latestSeq = some latest →
    ∀ c ∈ commits.drop rowsAt, c.entry.resource = clone.table → c.client ≠ clone.client →
      latest < c.entry.serverSeq

structure InSync (s : SyncState) : Prop where
  numbered : Numbered s.server
  stored : NothingLost s
  requested : ∀ k pull, s.server.pulls.get k = some pull →
    ∃ client, s.clients.get pull.client = some client ∧ ∀ resource, IsSyncKey resource →
      Covered s.server.commits pull.client client.delivered resource
        (ServerState.requestCursor pull.request resource)
  reading : ∀ k pull, s.server.pulls.get k = some pull → ∀ resource stream,
    pull.streams.get resource = some stream → ReadComplete s.server.commits pull resource stream
  cloning : ∀ j clone, s.clones.get j = some clone → CloneRead s.server.commits clone

theorem inSync_emptySync (externalStore : Bool) : InSync (emptySync externalStore) where
  numbered := Numbered.emptyNamespace externalStore
  stored := fun _ _ h => absurd h (by simp [emptySync])
  requested := fun _ _ h => absurd h (by simp [emptySync, emptyNamespace])
  reading := fun _ _ h => absurd h (by simp [emptySync, emptyNamespace])
  cloning := fun _ _ h => absurd h (by simp [emptySync])

section Steps

variable {D : Deployment} {s s' : SyncState}

theorem InSync.positive (hs : InSync s) : ∀ c ∈ s.server.commits, 0 < c.entry.serverSeq :=
  fun c hc => (hs.numbered.commits_lt c hc).1

variable {server : ServerState}

theorem InSync.pushes (hs : InSync s) (hnumbered : Numbered server)
    (hcommits : server.commits = s.server.commits) (hpulls : server.pulls = s.server.pulls) :
    InSync { s with server := server } where
  numbered := hnumbered
  stored := fun id client hclient r hr cursor hcursor => by
    rw [hcommits]
    exact hs.stored id client hclient r hr cursor hcursor
  requested := fun k pull hpull => by
    obtain ⟨client, hclient, hcovered⟩ := hs.requested k pull (hpulls ▸ hpull)
    refine ⟨client, hclient, fun r hr => ?_⟩
    rw [hcommits]
    exact hcovered r hr
  reading := fun k pull hpull r stream hstream => by
    rw [hcommits]
    exact hs.reading k pull (hpulls ▸ hpull) r stream hstream
  cloning := fun j clone hclone => by
    rw [hcommits]
    exact hs.cloning j clone hclone

theorem InSync.commit (hs : InSync s) {push : PushRun} {tx : Transaction}
    (habove : ∀ e ∈ tx.written, AboveReaders s push.client e) (hnumbered : Numbered server)
    (hcommits : server.commits = s.server.commits ++ tx.written.map (⟨push.client, ·⟩))
    (hpulls : server.pulls = s.server.pulls) : InSync { s with server := server } where
  numbered := hnumbered
  stored := fun id client hclient r hr cursor hcursor => by
    rw [hcommits]
    refine (hs.stored id client hclient r hr cursor hcursor).commit fun c hc hresource => ?_
    obtain ⟨e, he, rfl⟩ := mem_map.mp hc
    by_cases hid : push.client = id
    · exact .inl hid
    have hentry := (s.clients.mem_entries_iff_get id client).mpr hclient
    have hlt := (habove e he).1 (id, client) hentry fun heq => hid heq.symm
    have hcursor' : storedCursor client.store e.resource = cursor := by
      rw [storedCursor, hresource, hcursor, getD_some]
    exact .inr (hcursor' ▸ hlt)
  requested := fun k pull hpull => by
    rw [hpulls] at hpull
    obtain ⟨client, hclient, hcovered⟩ := hs.requested k pull hpull
    refine ⟨client, hclient, fun r hr => ?_⟩
    rw [hcommits]
    refine (hcovered r hr).commit fun c hc hresource => ?_
    obtain ⟨e, he, rfl⟩ := mem_map.mp hc
    by_cases hid : push.client = pull.client
    · exact .inl hid
    · have hentry := (s.server.pulls.mem_entries_iff_get k pull).mpr hpull
      have hlt := ((habove e he).2.1 (k, pull) hentry fun heq => hid heq.symm).1
      exact .inr (hresource ▸ hlt)
  reading := fun k pull hpull r stream hstream => by
    rw [hpulls] at hpull
    have hold := hs.reading k pull hpull r stream hstream
    rw [hcommits]
    refine ⟨hold.sorted, fun e he => ?_, fun e he c hc hforeign hresource hsince hlt => ?_⟩
    · obtain ⟨hresource, c, hc, heq⟩ := hold.committed e he
      exact ⟨hresource, c, mem_append_left _ hc, heq⟩
    rcases mem_append.mp hc with hc | hc
    · exact hold.complete e he c hc hforeign hresource hsince hlt
    -- a new change lies above everything the pull has read
    obtain ⟨new, hnew, rfl⟩ := mem_map.mp hc
    have hentry := (s.server.pulls.mem_entries_iff_get k pull).mpr hpull
    have hread := ((habove new hnew).2.1 (k, pull) hentry fun heq => hforeign heq.symm).2
    simp only at hresource hlt
    have hpassed := hread e (by rw [hresource, hstream]; exact he)
    omega
  cloning := fun j clone hclone => by
    have hold := hs.cloning j clone hclone
    rw [hcommits]
    refine ⟨fun rowsAt hrows => ?_, fun rowsAt hrows latest hlatest c hc hresource hforeign => ?_⟩
    · have := hold.rows rowsAt hrows
      rw [length_append]
      omega
    · rw [drop_append_of_le_length (hold.rows rowsAt hrows)] at hc
      rcases mem_append.mp hc with hc | hc
      · exact hold.latest rowsAt hrows latest hlatest c hc hresource hforeign
      · obtain ⟨new, hnew, rfl⟩ := mem_map.mp hc
        have hentry := (s.clones.mem_entries_iff_get j clone).mpr hclone
        exact (habove new hnew).2.2 (j, clone) hentry (fun heq => hforeign heq.symm)
          hresource.symm latest hlatest

/-! ## Pull requests -/

theorem requestCursor_buildPullCursors (keys : List String) (store : ClientStore)
    (limit : Option Nat) (resource : String) :
    ServerState.requestCursor ⟨buildPullCursors keys store, limit⟩ resource = 0 ∨
      ServerState.requestCursor ⟨buildPullCursors keys store, limit⟩ resource =
        storedCursor store resource := by
  have hfold : ∀ (ks : List String) (m : OMap String Nat),
      ((ks.foldl (fun cursors key => cursors.set key ((store.cursors key).getD 0)) m).get
          resource).getD 0 = (m.get resource).getD 0 ∨
        ((ks.foldl (fun cursors key => cursors.set key ((store.cursors key).getD 0)) m).get
          resource).getD 0 = storedCursor store resource := by
    intro ks
    induction ks with
    | nil => exact fun m => .inl rfl
    | cons key ks ih =>
      intro m
      rcases ih (m.set key ((store.cursors key).getD 0)) with hset | hstored
      · rw [get_set] at hset
        split at hset
        case isTrue heq => exact .inr (by rw [foldl_cons, hset, heq]; rfl)
        case isFalse => exact .inl (by rw [foldl_cons, hset])
      · exact .inr hstored
  exact hfold (keys ++ [actorFeedCursorKey]) OMap.empty

theorem InSync.covered_zero (hs : InSync s) (client : Nat) (delivered : List ChangeEntry)
    (resource : String) : Covered s.server.commits client delivered resource 0 := by
  intro c hc _ hle
  have := hs.positive c hc
  omega

variable {client : Client} {resource : String} {id : Nat}

theorem InSync.covered_stored (hs : InSync s) (hclient : s.clients.get id = some client)
    (hr : IsSyncKey resource) :
    Covered s.server.commits id client.delivered resource (storedCursor client.store resource) := by
  refine Covered.extend hs.positive (hs.stored id client hclient resource hr) ?_
  intro c _ _ hlt hle
  omega

variable {k : Nat}

theorem InSync.startPull (hs : InSync s) {limit : Nat} {request : PullRequest}
    (hclient : s.clients.get id = some client)
    (hrequest : ∀ resource, IsSyncKey resource → Covered s.server.commits id client.delivered
      resource (ServerState.requestCursor request resource)) (hnumbered : Numbered server)
    (hcommits : server.commits = s.server.commits)
    (hpulls : server.pulls = s.server.pulls.set k ⟨id, request, limit, OMap.empty⟩) :
    InSync { s with server := server } where
  numbered := hnumbered
  stored := fun id client hclient r hr cursor hcursor => by
    rw [hcommits]
    exact hs.stored id client hclient r hr cursor hcursor
  requested := fun k' pull hpull => by
    rw [hcommits]
    rw [hpulls, get_set] at hpull
    split at hpull
    · cases hpull
      exact ⟨client, hclient, hrequest⟩
    · exact hs.requested k' pull hpull
  reading := fun k' pull hpull r stream hstream => by
    rw [hcommits]
    rw [hpulls, get_set] at hpull
    split at hpull
    · cases hpull
      cases hstream
    · exact hs.reading k' pull hpull r stream hstream
  cloning := fun j clone hclone => by
    rw [hcommits]
    exact hs.cloning j clone hclone

theorem InSync.readChanges (hs : InSync s) (h : s.server.readChanges k resource = some server) :
    InSync { s with server := server } := by
  have hnumbered := hs.numbered.step (a := .readChanges k resource) h
  obtain ⟨pull, changes, hpull, -, hchanges, rfl⟩ := readChanges_eq h
  have hget : ∀ k' pull', (s.server.pulls.set k
      { pull with streams := pull.streams.set resource changes }).get k' = some pull' →
      (k' = k ∧ pull' = { pull with streams := pull.streams.set resource changes }) ∨
        s.server.pulls.get k' = some pull' := by
    intro k' pull' hpull'
    rw [get_set] at hpull'
    split at hpull'
    case isTrue heq => exact .inl ⟨heq, (some.inj hpull').symm⟩
    case isFalse => exact .inr hpull'
  refine ⟨hnumbered, hs.stored, fun k' pull' hpull' => ?_,
    fun k' pull' hpull' r stream hstream => ?_, hs.cloning⟩
  · rcases hget k' pull' hpull' with ⟨-, rfl⟩ | hold
    · exact hs.requested k pull hpull
    · exact hs.requested k' pull' hold
  rcases hget k' pull' hpull' with ⟨-, rfl⟩ | hold
  · rw [get_set] at hstream
    split at hstream
    case isFalse =>
      have hold := hs.reading k pull hpull r stream hstream
      exact { hold with }
    case isTrue hr =>
      subst hr
      cases hstream
      subst hchanges
      refine ⟨getChangesSince_pairwise, fun e he => ?_, fun e he c hc _ hresource hsince hlt => ?_⟩
      · obtain ⟨hlog, hresource, -⟩ := of_mem_getChangesSince he
        obtain ⟨c, hc, heq⟩ := mem_map.mp hlog
        exact ⟨hresource, c, hc, heq⟩
      · exact mem_getChangesSince_of_lt he (mem_map_of_mem hc) hresource hsince hlt
  · exact hs.reading k' pull' hold r stream hstream

theorem InSync.endPull (hs : InSync s) (h : s.server.answerPull k = some server) :
    InSync { s with server := server } := by
  have hnumbered := hs.numbered.step (a := .answerPull k) h
  obtain ⟨pull, -, -, rfl⟩ := answerPull_eq h
  have hget : ∀ k' pull', (s.server.pulls.delete k).get k' = some pull' →
      s.server.pulls.get k' = some pull' := by
    intro k' pull' hpull'
    rw [get_delete] at hpull'
    split at hpull'
    · exact absurd hpull' (by simp)
    · exact hpull'
  exact ⟨hnumbered, hs.stored, fun k' pull' hpull' => hs.requested k' pull' (hget k' pull' hpull'),
    fun k' pull' hpull' => hs.reading k' pull' (hget k' pull' hpull'), hs.cloning⟩

/-! ## Pull pages -/

section PullPage

variable {k : Nat} {pull : PullRun} {actor : Option ActorView}

/-- The heads of what a pull has read. -/
def heads (pull : PullRun) : List Head :=
  ((requestedResourceKeys pull.request).map fun resource =>
    (resource, (pull.streams.get resource).getD [])).filterMap toHead

theorem mem_pending_heads {c : ChangeEntry} : c ∈ pending (heads pull) ↔
    ∃ resource ∈ requestedResourceKeys pull.request,
      ∃ stream, pull.streams.get resource = some stream ∧ c ∈ stream := by
  unfold heads
  rw [pending_filterMap_toHead, mem_flatMap]
  constructor
  · rintro ⟨stream, hstream, hc⟩
    obtain ⟨resource, hresource, rfl⟩ := mem_map.mp hstream
    cases hread : pull.streams.get resource with
    | none =>
      rw [hread] at hc
      cases hc
    | some changes =>
      rw [hread] at hc
      exact ⟨resource, hresource, changes, hread, hc⟩
  · intro ⟨resource, hresource, stream, hread, hc⟩
    exact ⟨_, mem_map_of_mem hresource, by rw [hread]; exact hc⟩

theorem InSync.streams (hs : InSync s) (hpull : s.server.pulls.get k = some pull) :
    Streams (heads pull) := by
  have hread : ∀ stream ∈ (requestedResourceKeys pull.request).map (fun resource =>
      (resource, (pull.streams.get resource).getD [])),
      (∀ c ∈ stream.2, c.resource = stream.1) ∧
        stream.2.Pairwise fun a b => a.serverSeq ≤ b.serverSeq := by
    refine forall_mem_map.mpr fun resource _ => ?_
    cases hget : pull.streams.get resource with
    | none => simp
    | some changes =>
      have hcomplete := hs.reading k pull hpull resource changes hget
      exact ⟨fun c hc => (hcomplete.committed c hc).1, hcomplete.sorted⟩
  refine streams_filterMap_toHead ?_ (fun stream h => (hread stream h).1)
    fun stream h => (hread stream h).2
  simpa [Function.comp_def] using nodup_requestedResourceKeys pull.request

theorem InSync.selected_of_le (hs : InSync s) (hpull : s.server.pulls.get k = some pull)
    {top : ChangeEntry} (htop : top ∈ pull.selection.merged) {c : Commit}
    (hc : c ∈ s.server.commits) (hforeign : c.client ≠ pull.client)
    (hresource : c.entry.resource = top.resource)
    (hsince : ServerState.requestCursor pull.request top.resource < c.entry.serverSeq)
    (hle : c.entry.serverSeq ≤ top.serverSeq) : c.entry ∈ pull.selection.merged := by
  obtain ⟨resource, hrequested, stream, hread, hmem⟩ :=
    mem_pending_heads.mp (mem_pending_of_selected htop)
  have hcomplete := hs.reading k pull hpull resource stream hread
  obtain ⟨hname, twin, htwin, htwinTop⟩ := hcomplete.committed top hmem
  rcases Nat.lt_or_eq_of_le hle with hlt | heq
  · have hin : c.entry ∈ stream :=
      hcomplete.complete top hmem c hc hforeign (hresource.trans hname) (hname ▸ hsince) hlt
    have hpending := mem_pending_heads.mpr ⟨resource, hrequested, stream, hread, hin⟩
    rcases (hs.streams hpull).selected_or_left pull.limit hpending with hselected | hleft
    · exact hselected
    · have hafter := (hs.streams hpull).selected_le_left htop hleft
      omega
  · -- numbers are unique: it is the selected change itself
    have hsame : c = twin := by
      refine inj_on_of_nodup_map hs.numbered.commits_nodup hc htwin ?_
      rw [heq, htwinTop]
    rwa [hsame, htwinTop]

/-- Up to the cursors of its page, a pull has delivered every foreign change. -/
theorem InSync.page_covered (hs : InSync s) (hpull : s.server.pulls.get k = some pull)
    (hclient : s.clients.get pull.client = some client) (hlists : ListsForeign D s pull actor)
    (hr : IsSyncKey resource) {cursor : Nat}
    (hcursor : (pageCursors actor pull.request pull.selection).get resource = some cursor) :
    Covered s.server.commits pull.client
      (client.delivered ++
        pull.selection.merged.filter (pageLists D.isPrivateShareableResource actor))
      resource cursor := by
  obtain ⟨client', hclient', hrequested⟩ := hs.requested k pull hpull
  rw [hclient] at hclient'
  cases hclient'
  have hbelow := (hrequested resource hr).deliver
    (pull.selection.merged.filter (pageLists D.isPrivateShareableResource actor))
  rw [get_pageCursors _ _ _ hr.2] at hcursor
  have hspec := latestCursors_spec pull.selection.merged resource
  have hlatest : pull.selection.latestCursorPerResource = latestCursors pull.selection.merged := rfl
  rw [hlatest] at hcursor
  cases hget : (latestCursors pull.selection.merged).get resource with
  | none =>
    rw [hget, none_or] at hcursor
    have : ServerState.requestCursor pull.request resource = cursor := by
      rw [ServerState.requestCursor, hcursor, getD_some]
    exact this ▸ hbelow
  | some latest =>
    rw [hget] at hcursor hspec
    cases hcursor
    obtain ⟨⟨top, htop, rfl, rfl⟩, -⟩ := hspec
    intro c hc hresource hle
    by_cases hsince : ServerState.requestCursor pull.request top.resource < c.entry.serverSeq
    · by_cases hown : c.client = pull.client
      · exact .inl hown
      · have hselected := hs.selected_of_le hpull htop hc hown hresource hsince hle
        refine .inr (mem_append_right _ ?_)
        exact mem_filter.mpr ⟨hselected, hlists c hc hown hselected⟩
    · exact hbelow c hc hresource (Nat.le_of_not_lt hsince)

end PullPage

/-- A client that has applied a reply: its new cursors are covered, and it has lost nothing. -/
theorem InSync.apply (hs : InSync s) (hclient : s.clients.get id = some client)
    {more : List ChangeEntry} (hstored : ∀ resource, IsSyncKey resource → ∀ cursor,
      store.cursors resource = some cursor → client.store.cursors resource = some cursor ∨
        Covered s.server.commits id (client.delivered ++ more) resource cursor) :
    InSync { s with clients := s.clients.set id ⟨store, client.delivered ++ more⟩ } := { hs with
  stored := fun id' client' hclient' r hr cursor hcursor => by
    rw [get_set] at hclient'
    split at hclient'
    case isFalse => exact hs.stored id' client' hclient' r hr cursor hcursor
    rename_i heq
    subst heq
    cases hclient'
    rcases hstored r hr cursor hcursor with hold | hcovered
    · exact (hs.stored id' client hclient r hr cursor hold).deliver more
    · exact hcovered
  requested := fun k pull hpull => by
    obtain ⟨client', hclient', hcovered⟩ := hs.requested k pull hpull
    rw [get_set]
    by_cases heq : pull.client = id
    · rw [if_pos heq]
      rw [heq, hclient] at hclient'
      cases hclient'
      exact ⟨_, rfl, fun r hr => (hcovered r hr).deliver more⟩
    · rw [if_neg heq]
      exact ⟨client', hclient', hcovered⟩ }

theorem InSync.acknowledgePush (hs : InSync s) {p : Nat}
    (hown : SkipsNothing D s (.acknowledgePush p)) (h : s.acknowledgePush p = some s') :
    InSync s' := by
  unfold SyncState.acknowledgePush at h
  simp only [bind_eq_bind, bind_eq_some_iff] at h
  obtain ⟨push, hpush, client, hclient, server, hfinish, h⟩ := h
  have hnumbered := hs.numbered.step (a := .finishPush p) hfinish
  obtain ⟨-, -, rfl⟩ := finishPush_eq hfinish
  have happlied : InSync { s with
      clients := s.clients.set push.client
        ⟨advancePushCursors client.store push.resourceSeqs, client.delivered ++ []⟩ } := by
    refine hs.apply hclient fun r hr cursor hcursor => ?_
    rcases cursors_foldl_setCursorMonotonically hcursor with hold | hack
    · exact .inl hold
    refine .inr ?_
    rw [append_nil]
    refine Covered.extend hs.positive (hs.stored _ client hclient r hr) ?_
    intro c hc hresource hlt hle
    exact .inl (hown push hpush client hclient (r, cursor) hack c hc hresource hlt hle)
  rw [append_nil] at happlied
  cases h
  exact happlied.pushes hnumbered rfl rfl

theorem InSync.startPullNow (hs : InSync s) (h : s.startPull D k id = some s') : InSync s' := by
  unfold SyncState.startPull at h
  simp only [bind_eq_bind, bind_eq_some_iff] at h
  obtain ⟨client, hclient, server, hstart, h⟩ := h
  have hnumbered := hs.numbered.step (a := .startPull k id _ _) hstart
  cases h
  rw [startPull_eq hstart] at hnumbered ⊢
  refine hs.startPull hclient (fun r hr => ?_) hnumbered rfl rfl
  rcases requestCursor_buildPullCursors D.pullKeys client.store (some D.pullBatchSize) r with
    hzero | hstored
  · rw [hzero]
    exact hs.covered_zero id client.delivered r
  · rw [hstored]
    exact hs.covered_stored hclient hr

theorem InSync.applyPull (hs : InSync s) {actor : Option ActorView} {again : Bool}
    (hlists : SkipsNothing D s (.applyPull k actor again))
    (h : s.applyPull D k actor again = some s') : InSync s' := by
  unfold SyncState.applyPull at h
  simp only [bind_eq_bind, bind_eq_some_iff] at h
  obtain ⟨pull, hpull, client, hclient, answered, hanswer, store, hstore, server, hserver, h⟩ := h
  have hpage : ∀ r, IsSyncKey r → ∀ cursor,
      (pageCursors actor pull.request pull.selection).get r = some cursor →
      Covered s.server.commits pull.client (client.delivered ++
        pull.selection.merged.filter (pageLists D.isPrivateShareableResource actor)) r cursor :=
    fun r hr cursor hcursor => hs.page_covered hpull hclient (hlists pull hpull) hr hcursor
  have happlied := hs.apply hclient fun r hr cursor hcursor => by
    rcases cursors_applyPull hr.1 hstore hcursor with hold | hnew
    · exact .inl hold
    · exact .inr (hpage r hr cursor hnew)
  have hended := happlied.endPull hanswer
  cases h
  unfold SyncState.continuePull at hserver
  split at hserver
  case isFalse =>
    cases hserver
    exact hended
  case isTrue =>
    split at hserver
    case isFalse => cases hserver
    have hnumbered := hended.numbered.step (a := .startPull k pull.client _ _) hserver
    obtain ⟨_, _, _, heq⟩ := answerPull_eq hanswer
    have hcommits : answered.commits = s.server.commits := by rw [heq]
    rw [startPull_eq hserver] at hnumbered ⊢
    refine hended.startPull (by rw [get_set, if_pos rfl]) (fun r hr => ?_) hnumbered rfl rfl
    rw [hcommits, ServerState.requestCursor, get_setAll]
    show Covered _ _ _ r (Option.getD (((pageCursors actor pull.request pull.selection).get r).or
      (pull.request.cursors.get r)) 0)
    cases hget : (pageCursors actor pull.request pull.selection).get r with
    | some cursor => exact hpage r hr cursor hget
    | none =>
      rw [get_pageCursors _ _ _ hr.2, or_eq_none_iff] at hget
      rw [hget.2]
      exact hs.covered_zero _ _ r

/-! ## Clones -/

variable {j : Nat} {clone : CloneRun}

theorem InSync.setClone (hs : InSync s) (hclone : CloneRead s.server.commits clone) :
    InSync { s with clones := s.clones.set j clone } := { hs with
  cloning := fun j' clone' hclone' => by
    rw [get_set] at hclone'
    split at hclone'
    · cases hclone'
      exact hclone
    · exact hs.cloning j' clone' hclone' }

theorem InSync.deleteClone (hs : InSync s) (j : Nat) :
    InSync { s with clones := s.clones.delete j } := { hs with
  cloning := fun j' clone' hclone' => by
    rw [get_delete] at hclone'
    split at hclone'
    · exact absurd hclone' (by simp)
    · exact hs.cloning j' clone' hclone' }

theorem InSync.startClone (hs : InSync s) (h : s.startClone j clone = some s') : InSync s' := by
  unfold SyncState.startClone at h
  split at h
  · cases h
  split at h
  case isFalse => cases h
  case isTrue hfresh =>
    cases h
    refine hs.setClone ⟨fun n hn => ?_, fun n hn => ?_⟩ <;>
      exact absurd (hfresh.1.symm.trans hn) (by simp)

theorem InSync.readCloneRows (hs : InSync s) (h : s.readCloneRows j = some s') : InSync s' := by
  unfold SyncState.readCloneRows at h
  split at h
  · split at h
    case isFalse => cases h
    cases h
    refine hs.setClone ⟨fun n hn => ?_, fun n hn latest _ c hc => ?_⟩
    · cases hn
      exact le_rfl
    · cases hn
      rw [drop_length] at hc
      cases hc
  · cases h

theorem InSync.readLatestServerSeq (hs : InSync s)
    (hcurrent : SkipsNothing D s (.readLatestServerSeq j)) (h : s.readLatestServerSeq j = some s') :
    InSync s' := by
  unfold SyncState.readLatestServerSeq at h
  split at h
  case h_2 => cases h
  rename_i clone hclone
  split at h
  case isFalse => cases h
  case isTrue =>
    cases h
    refine hs.setClone ⟨(hs.cloning j clone hclone).rows, ?_⟩
    intro n hn latest _ c hc hresource hforeign
    exact absurd (hcurrent clone hclone n hn c hc hresource) hforeign

theorem InSync.applyClone (hs : InSync s) (hgap : SkipsNothing D s (.applyClone j))
    (h : s.applyClone D j = some s') : InSync s' := by
  unfold SyncState.applyClone at h
  simp only [bind_eq_bind, bind_eq_some_iff] at h
  obtain ⟨clone, hclone, client, hclient, rowsAt, hrows, latest, hlatest, store, hstore, h⟩ := h
  cases h
  refine InSync.deleteClone (hs.apply hclient fun r hr cursor hcursor => ?_) j
  rw [cursors_applyClone rfl rfl (by rw [cloneResult, get_set, if_pos rfl]) hstore hr.1] at hcursor
  split at hcursor
  case isFalse => exact .inl hcursor
  rename_i htable
  subst htable
  cases hcursor
  refine .inr (Covered.extend hs.positive (fun old hold =>
    (hs.stored _ client hclient _ hr old hold).deliver _) ?_)
  intro c hc hresource hlt hle
  by_cases hown : c.client = clone.client
  · exact .inl hown
  rw [← take_append_drop rowsAt s.server.commits] at hc
  rcases mem_append.mp hc with hread | hlater
  · have hcarried := hgap clone hclone client hclient rowsAt hrows c hread hresource hown hlt
    refine .inr (mem_append_right _ (mem_filter.mpr ⟨mem_map_of_mem hread, ?_⟩))
    exact decide_eq_true ⟨hresource, hcarried⟩
  · have habove := (hs.cloning j clone hclone).latest rowsAt hrows latest hlatest c hlater
      hresource hown
    omega

end Steps

theorem inSync_step (D : Deployment) (s : SyncState) (a : SyncAction) (s' : SyncState)
    (hs : InSync s) (hskips : SkipsNothing D s a) (h : syncStep D s a = some s') : InSync s' := by
  cases a with
  | openClient id =>
    simp only [syncStep, SyncState.openClient] at h
    split at h
    · cases h
    case h_2 hnone =>
      cases h
      refine ⟨hs.numbered, fun id' client hclient r hr cursor hcursor => ?_, fun k pull hpull => ?_,
        hs.reading, hs.cloning⟩
      · rw [get_set] at hclient
        split at hclient
        · cases hclient
          exact absurd hcursor (by simp [freshClient, emptyStore])
        · exact hs.stored id' client hclient r hr cursor hcursor
      · obtain ⟨client, hclient, hcovered⟩ := hs.requested k pull hpull
        have hne : pull.client ≠ id := fun heq => by
          rw [heq, hnone] at hclient
          cases hclient
        refine ⟨client, ?_, hcovered⟩
        rwa [get_set, if_neg hne]
  | startPush p client mutations =>
    obtain ⟨server, hserver, rfl⟩ := map_eq_some_iff.mp h
    have hnumbered := hs.numbered.step hserver
    obtain ⟨-, rfl⟩ := startPush_eq hserver
    exact hs.pushes hnumbered rfl rfl
  | beginMutation p =>
    obtain ⟨server, hserver, rfl⟩ := map_eq_some_iff.mp h
    have hnumbered := hs.numbered.step hserver
    obtain ⟨push, -, -, rfl⟩ := beginMutation_eq hserver
    exact hs.pushes hnumbered rfl rfl
  | recordChange p change =>
    obtain ⟨server, hserver, rfl⟩ := map_eq_some_iff.mp h
    have hnumbered := hs.numbered.step hserver
    obtain ⟨push, tx, seq, allocation, taken, entry, -, -, htake, -, -, rfl⟩ :=
      recordChange_eq hserver
    rcases takeNextServerSeq_cases hs.numbered.locked htake with
      ⟨-, rfl⟩ | ⟨-, count, -, hfresh⟩
    · exact hs.pushes hnumbered rfl rfl
    · exact hs.pushes hnumbered hfresh.commits_eq hfresh.pulls_eq
  | commitMutation p =>
    obtain ⟨server, hserver, rfl⟩ := map_eq_some_iff.mp h
    have hnumbered := hs.numbered.step hserver
    obtain ⟨push, tx, hpush, htx, rfl⟩ := commitMutation_eq hserver
    obtain ⟨-, -, -, -, -, -, hpulls, -⟩ := releaseRow_spec hs.numbered.locked true (p := p)
    exact hs.commit (hskips push hpush tx htx) hnumbered rfl hpulls
  | rollbackMutation p =>
    obtain ⟨server, hserver, rfl⟩ := map_eq_some_iff.mp h
    have hnumbered := hs.numbered.step hserver
    obtain ⟨push, -, rfl⟩ := rollbackMutation_eq hserver
    obtain ⟨-, -, -, -, -, hcommits, hpulls, -⟩ :=
      releaseRow_spec hs.numbered.locked false (p := p)
    exact hs.pushes hnumbered hcommits hpulls
  | acknowledgePush p => exact hs.acknowledgePush hskips h
  | losePush p =>
    obtain ⟨server, hserver, rfl⟩ := map_eq_some_iff.mp h
    have hnumbered := hs.numbered.step hserver
    obtain ⟨push, -, rfl⟩ := finishPush_eq hserver
    exact hs.pushes hnumbered rfl rfl
  | startPull k id => exact hs.startPullNow h
  | readChanges k resource =>
    obtain ⟨server, hserver, rfl⟩ := map_eq_some_iff.mp h
    exact hs.readChanges hserver
  | applyPull k actor again => exact hs.applyPull hskips h
  | losePull k =>
    obtain ⟨server, hserver, rfl⟩ := map_eq_some_iff.mp h
    exact hs.endPull hserver
  | startClone j clone => exact hs.startClone h
  | readCloneRows j => exact hs.readCloneRows h
  | readLatestServerSeq j => exact hs.readLatestServerSeq hskips h
  | applyClone j => exact hs.applyClone hskips h
  | dropClone j =>
    simp only [syncStep, SyncState.dropClone] at h
    split at h
    · cases h
      exact hs.deleteClone j
    · cases h

/-- In every run in which no reply skips another client's change, nothing is lost. -/
theorem run_loses_nothing (D : Deployment) (externalStore : Bool) (actions : List SyncAction)
    {s : SyncState} (hrun : run (syncStep D) (emptySync externalStore) actions = some s)
    (hskips : Guarded (syncStep D) (SkipsNothing D) (emptySync externalStore) actions) :
    NothingLost s :=
  (guarded_run_invariant (syncStep D) (inSync_step D) (inSync_emptySync externalStore) hskips
    hrun).stored

/-! ## Two runs -/

def noteOf (id : String) : Record := Finmap.singleton "id" (.str id)

def sampleNotes : DbTable := ⟨⟨[("b", noteOf "b")], by decide⟩, by decide⟩

/-- The first commit inserts note `b`. -/
def sampleDatabase (commits : List Commit) : CloneServer where
  remoteOnly := fun _ => some false
  isPrivate := fun _ => false
  actorId := none
  hasAccess := fun _ _ _ => false
  tables := fun _ => if commits.isEmpty then DbTable.empty else sampleNotes
  latestServerSeq := fun _ => commits.length
  joins := OMap.empty
  maxCloneRecords := 10000

def sampleDeployment : Deployment where
  pullKeys := ["notes"]
  pullBatchSize := 200
  maxPullLimit := none
  isPrivateShareableResource := fun _ => false
  database := fun _ => sampleDatabase

/-- A client pushes the insert of one note and stores the cursors of the reply. -/
def insertNote (p client : Nat) (id : String) : List SyncAction :=
  [.startPush p client 1, .beginMutation p,
    .recordChange p ⟨"notes", id, .insert, some (noteOf id)⟩, .commitMutation p,
    .acknowledgePush p]

def pullNotes (k client : Nat) : List SyncAction :=
  [.startPull k client, .readChanges k "notes", .applyPull k none false]

def cloneNotes (j client : Nat) : List SyncAction :=
  [.startClone j ⟨client, "notes", none, some 1000, none, none⟩, .readCloneRows j,
    .readLatestServerSeq j, .applyClone j]

/-- Client 1 commits note `b` as 1, client 0 pushes note `a` as 2 and stores cursor 2; its pull
starts behind note `b`. -/
def skippingRun : List SyncAction :=
  [.openClient 0, .openClient 1] ++ insertNote 0 1 "b" ++ insertNote 1 0 "a" ++ pullNotes 0 0

theorem push_skips_foreign_change :
    ∃ s, run (syncStep sampleDeployment) (emptySync false) skippingRun = some s ∧
      ¬ NothingLost s := by
  refine ⟨_, rfl, fun h => ?_⟩
  have hcovered := h 0 _ rfl "notes" ⟨by decide, by decide⟩ 2 (by decide)
  have hlost := hcovered ⟨1, ⟨1, "notes", "b", .insert, some (noteOf "b")⟩⟩ (by decide) rfl
    (by decide)
  exact absurd hlost (by decide)

/-- Client 0 clones after the commit of client 1, client 1 pulls after the one of client 0. -/
def alternatingRun : List SyncAction :=
  [.openClient 0, .openClient 1] ++ insertNote 0 1 "b" ++ cloneNotes 0 0 ++
    insertNote 1 0 "a" ++ pullNotes 0 1 ++ insertNote 2 1 "c" ++ pullNotes 1 0

theorem alternatingRun_loses_nothing :
    ∃ s, run (syncStep sampleDeployment) (emptySync false) alternatingRun = some s ∧
      NothingLost s :=
  ⟨_, rfl, run_loses_nothing sampleDeployment false alternatingRun rfl (by decide)⟩

end SuperFunctions.Datafn.Sync.NoLostChange
