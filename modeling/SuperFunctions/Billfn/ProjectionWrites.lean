import SuperFunctions.Billfn.Projections

/-!
# The writes of a projection

A subscription row is written under its own id with a later `updatedAt`, and the snapshot of an
account stands under the account. Every snapshot names as its source a state that some row has
been in.
-/
namespace SuperFunctions.Billfn.ProjectionWrites

open Subscriptions List

structure Consistent (db : Tables) : Prop where
  ids : (db.subscriptions.map (·.id)).Nodup
  accounts : (db.entitlementSnapshots.map (·.billingAccountId)).Nodup
  snapshotIds : ∀ e ∈ db.entitlementSnapshots, e.id = s!"ent_{e.billingAccountId}"
  sources : ∀ e ∈ db.entitlementSnapshots, ∀ source, e.sourceEventId = some source →
    ∃ s ∈ db.subscriptions, s.id = source.1 ∧ source.2 ≤ s.updatedAt

theorem row_unique {db : Tables} (h : Consistent db) {s t : BillFnSubscription}
    (hs : s ∈ db.subscriptions) (ht : t ∈ db.subscriptions) (hid : s.id = t.id) : s = t :=
  inj_on_of_nodup_map h.ids hs ht hid

theorem snapshot_unique {db : Tables} (h : Consistent db) {e f : BillFnEntitlementSnapshot}
    (he : e ∈ db.entitlementSnapshots) (hf : f ∈ db.entitlementSnapshots)
    (haccount : e.billingAccountId = f.billingAccountId) : e = f :=
  inj_on_of_nodup_map h.accounts he hf haccount

theorem find?_congr_mem {α : Type} {p q : α → Bool} {xs : List α} (h : ∀ x ∈ xs, p x = q x) :
    xs.find? p = xs.find? q := by
  induction xs with
  | nil => rfl
  | cons x xs ih =>
    rw [find?_cons, find?_cons, h x mem_cons_self, ih fun y hy => h y (mem_cons_of_mem _ hy)]

section Find

variable {db : Tables} {account : String} {e : BillFnEntitlementSnapshot}

theorem mem_of_findSnapshot (h : findEntitlementSnapshot db account = some e) :
    e ∈ db.entitlementSnapshots := mem_of_find?_eq_some h

theorem account_of_findSnapshot (h : findEntitlementSnapshot db account = some e) :
    e.billingAccountId = account := by
  simpa using find?_some h

variable {s : BillFnSubscription} {id : String}

theorem mem_of_getById (h : getSubscriptionById db id = some s) : s ∈ db.subscriptions :=
  mem_of_find?_eq_some h

theorem id_of_getById (h : getSubscriptionById db id = some s) : s.id = id := by
  simpa using find?_some h

theorem mem_of_latestBy {α : Type} {key : α → Int} {xs : List α} {x : α}
    (h : latestBy key xs = some x) : x ∈ xs := by
  induction xs with
  | nil => cases h
  | cons y ys ih =>
    simp only [latestBy] at h
    split at h
    · cases h
      exact mem_cons_self
    rename_i z hz
    split at h
    · cases h
      exact mem_cons_of_mem _ (ih hz)
    · cases h
      exact mem_cons_self

theorem mem_of_forAccount {id : Option String}
    (h : getSubscriptionForAccount db account id = some s) :
    s ∈ db.subscriptions ∧ s.billingAccountId = account := by
  unfold getSubscriptionForAccount at h
  split at h
  · have htest := find?_some h
    simp only [decide_eq_true_eq] at htest
    exact ⟨mem_of_find?_eq_some h, htest.2⟩
  · have hmem := mem_of_latestBy h
    rw [mem_filter, decide_eq_true_eq] at hmem
    exact ⟨hmem.1, hmem.2.1⟩

theorem mem_of_byProviderRef {provider : String} {a b c : Option String}
    (h : findSubscriptionByProviderRef db provider a b c = some s) : s ∈ db.subscriptions := by
  simp only [findSubscriptionByProviderRef, Option.or_eq_some_iff, Option.bind_eq_some_iff] at h
  rcases h with ⟨_, _, hfind⟩ | ⟨_, ⟨_, _, hfind⟩ | ⟨_, _, _, _, _, _, _, hfind⟩⟩
  · exact mem_of_find?_eq_some hfind
  · exact mem_of_find?_eq_some hfind
  · exact mem_of_find?_eq_some hfind

end Find

/-- The row of a projection stands in the table, in place of the one under its id if there was
one, and nothing else has changed but the sessions. -/
structure Written (db db' : Tables) (record : BillFnSubscription) : Prop where
  ids : (db'.subscriptions.map (·.id)).Nodup
  rows : ∀ s, s ∈ db'.subscriptions ↔ s = record ∨ (s ∈ db.subscriptions ∧ s.id ≠ record.id)
  snapshots : db'.entitlementSnapshots = db.entitlementSnapshots
  later : ∀ s ∈ db.subscriptions, s.id = record.id →
    s.updatedAt < record.updatedAt ∧ s.billingAccountId = record.billingAccountId

theorem Written.consistent {db db' : Tables} {record : BillFnSubscription}
    (h : Written db db' record) (hdb : Consistent db) : Consistent db' := { h with
  accounts := by
    rw [h.snapshots]
    exact hdb.accounts
  snapshotIds := by
    rw [h.snapshots]
    exact hdb.snapshotIds
  sources := by
    rw [h.snapshots]
    intro e he source hsource
    obtain ⟨s, hs, hid, hle⟩ := hdb.sources e he source hsource
    by_cases hrecord : s.id = record.id
    · have hlater := (h.later s hs hrecord).1
      refine ⟨record, (h.rows record).mpr (.inl rfl), hrecord ▸ hid, ?_⟩
      omega
    · exact ⟨s, (h.rows s).mpr (.inr ⟨hs, hrecord⟩), hid, hle⟩ }

section Replace

variable {db db' : Tables} {row record : BillFnSubscription} {test : BillFnSubscription → Bool}
  {affected : Nat}

theorem written_replace (hdb : Consistent db) (hrow : row ∈ db.subscriptions)
    (htest : ∀ s ∈ db.subscriptions, test s = true ↔ s = row) (hid : record.id = row.id)
    (hlater : row.updatedAt < record.updatedAt)
    (haccount : row.billingAccountId = record.billingAccountId)
    (h : writeSubscription db record test = some (db', affected)) :
    affected = 1 ∧ Written db db' record := by
  unfold writeSubscription at h
  split at h
  · cases h
  cases h
  have hcount : db.subscriptions.countP test = 1 := by
    have hcongr : db.subscriptions.countP test = db.subscriptions.countP (· == row) := by
      apply countP_congr
      intro s hs
      rw [htest s hs, beq_iff_eq]
    rw [hcongr]
    exact count_eq_one_of_mem hdb.ids.of_map hrow
  refine ⟨hcount, ?_, ?_, rfl, ?_⟩
  · have hids : ((db.subscriptions.map fun s => if test s then record else s).map (·.id))
        = db.subscriptions.map (·.id) := by
      rw [map_map]
      apply map_congr_left
      intro s hs
      show (if test s then record else s).id = s.id
      split
      · rename_i hs'
        rw [(htest s hs).mp hs', hid]
      · rfl
    exact hids ▸ hdb.ids
  · intro s
    rw [mem_map]
    constructor
    · rintro ⟨t, ht, rfl⟩
      split
      · exact .inl rfl
      · rename_i hnot
        refine .inr ⟨ht, fun hsame => hnot ?_⟩
        exact (htest t ht).mpr (row_unique hdb ht hrow (hsame.trans hid))
    · rintro (rfl | ⟨hs, hne⟩)
      · exact ⟨row, hrow, if_pos ((htest row hrow).mpr rfl)⟩
      · refine ⟨s, hs, if_neg ?_⟩
        intro hs'
        exact hne ((htest s hs).mp hs' ▸ hid.symm)
  · intro s hs hsame
    rw [row_unique hdb hs hrow (hsame.trans hid)]
    exact ⟨hlater, haccount⟩

theorem written_create (hdb : Consistent db) (h : createSubscription db record = some db') :
    Written db db' record := by
  unfold createSubscription at h
  split at h
  · cases h
  rename_i hfree
  cases h
  have hnew : ∀ s ∈ db.subscriptions, s.id ≠ record.id := by
    intro s hs hsame
    apply hfree
    rw [any_eq_true]
    refine ⟨s, hs, ?_⟩
    simp [clash, hsame]
  refine ⟨?_, ?_, rfl, fun s hs hsame => absurd hsame (hnew s hs)⟩
  · exact Lib.Processes.nodup_map_append hdb.ids hnew
  intro s
  rw [mem_append, mem_singleton]
  constructor
  · rintro (hs | rfl)
    · exact .inr ⟨hs, hnew s hs⟩
    · exact .inl rfl
  · rintro (rfl | ⟨hs, _⟩)
    · exact .inr rfl
    · exact .inl hs

end Replace

section Snapshots

variable {db : Tables} {account : String}

/-- The snapshot of one account was written and every other one is as it was. -/
structure Snapped (db db' : Tables) (account : String) (snapshot : BillFnEntitlementSnapshot) :
    Prop where
  consistent : Consistent db'
  rows : db'.subscriptions = db.subscriptions
  own : findEntitlementSnapshot db' account = some snapshot
  others : ∀ a, a ≠ account → findEntitlementSnapshot db' a = findEntitlementSnapshot db a

theorem unchanged_iff (hdb : Consistent db) {row e : BillFnEntitlementSnapshot}
    (hrow : row ∈ db.entitlementSnapshots) (he : e ∈ db.entitlementSnapshots) :
    unchangedSnapshot row e = true ↔ e = row := by
  unfold unchangedSnapshot
  rw [decide_eq_true_eq]
  constructor
  · intro h
    exact snapshot_unique hdb he hrow h.1
  · rintro rfl
    refine ⟨rfl, ?_⟩
    split <;> rfl

theorem snapped_update (hdb : Consistent db) {row snapshot : BillFnEntitlementSnapshot}
    (hfind : findEntitlementSnapshot db account = some row)
    (haccount : snapshot.billingAccountId = account) (hid : snapshot.id = row.id)
    (hsource : ∀ source, snapshot.sourceEventId = some source →
      ∃ s ∈ db.subscriptions, s.id = source.1 ∧ source.2 ≤ s.updatedAt) :
    (updateSnapshots db row snapshot).2 = 1 ∧
    Snapped db (updateSnapshots db row snapshot).1 account snapshot := by
  have hrow := mem_of_findSnapshot hfind
  have hrowAccount := account_of_findSnapshot hfind
  have htest := fun e he => unchanged_iff hdb hrow (e := e) he
  have hcount : db.entitlementSnapshots.countP (unchangedSnapshot row) = 1 := by
    have hcongr : db.entitlementSnapshots.countP (unchangedSnapshot row)
        = db.entitlementSnapshots.countP (· == row) := by
      apply countP_congr
      intro e he
      rw [htest e he, beq_iff_eq]
    rw [hcongr]
    exact count_eq_one_of_mem hdb.accounts.of_map hrow
  have hsame : ∀ e ∈ db.entitlementSnapshots,
      (if unchangedSnapshot row e then snapshot else e).billingAccountId = e.billingAccountId := by
    intro e he
    split
    · rename_i hunchanged
      rw [(htest e he).mp hunchanged, haccount, hrowAccount]
    · rfl
  have hmapped : ∀ a, findEntitlementSnapshot (updateSnapshots db row snapshot).1 a
      = (findEntitlementSnapshot db a).map fun e =>
        if unchangedSnapshot row e then snapshot else e := by
    intro a
    show List.find? _ (List.map _ _) = Option.map _ (List.find? _ _)
    rw [find?_map]
    congr 1
    apply find?_congr_mem
    intro e he
    simp only [Function.comp]
    rw [hsame e he]
  refine ⟨hcount, ⟨hdb.ids, ?_, ?_, ?_⟩, rfl, ?_, ?_⟩
  · have haccounts : (updateSnapshots db row snapshot).1.entitlementSnapshots.map
        (·.billingAccountId) = db.entitlementSnapshots.map (·.billingAccountId) := by
      show List.map _ (List.map _ _) = _
      rw [map_map]
      apply map_congr_left
      intro e he
      exact hsame e he
    exact haccounts ▸ hdb.accounts
  · refine forall_mem_map.mpr fun f hf => ?_
    rw [hsame f hf]
    split
    · rename_i hunchanged
      rw [hid, (htest f hf).mp hunchanged, hdb.snapshotIds row hrow]
    · exact hdb.snapshotIds f hf
  · intro e he source
    obtain ⟨f, hf, rfl⟩ := mem_map.mp he
    split
    · exact hsource source
    · exact hdb.sources f hf source
  · rw [hmapped, hfind, Option.map_some, if_pos ((htest row hrow).mpr rfl)]
  intro a ha
  rw [hmapped]
  cases hother : findEntitlementSnapshot db a with
  | none => rfl
  | some e =>
    have hne : ¬ unchangedSnapshot row e = true := by
      intro hunchanged
      have he := (htest e (mem_of_findSnapshot hother)).mp hunchanged
      exact ha ((account_of_findSnapshot hother).symm.trans (he ▸ hrowAccount))
    rw [Option.map_some, if_neg hne]

theorem snapped_create (hdb : Consistent db) {snapshot : BillFnEntitlementSnapshot}
    (hfind : findEntitlementSnapshot db account = none)
    (haccount : snapshot.billingAccountId = account) (hid : snapshot.id = s!"ent_{account}")
    (hsource : ∀ source, snapshot.sourceEventId = some source →
      ∃ s ∈ db.subscriptions, s.id = source.1 ∧ source.2 ≤ s.updatedAt) :
    ∃ db', createSnapshot db snapshot = some db' ∧ Snapped db db' account snapshot := by
  have hother : ∀ e ∈ db.entitlementSnapshots, e.billingAccountId ≠ account := by
    intro e he hsame
    have hnot := find?_eq_none.mp hfind e he
    simp [hsame] at hnot
  have hfree : ¬ (db.entitlementSnapshots.any fun s =>
      s.id = snapshot.id ∨ s.billingAccountId = snapshot.billingAccountId) = true := by
    rw [any_eq_true]
    rintro ⟨e, he, hclash⟩
    rw [decide_eq_true_eq] at hclash
    rcases hclash with hsame | hsame
    · rw [hdb.snapshotIds e he, hid] at hsame
      have hinj : e.billingAccountId = account := by
        simpa [toString] using hsame
      exact hother e he hinj
    · exact hother e he (hsame.trans haccount)
  refine ⟨_, if_neg hfree, ⟨hdb.ids, ?_, ?_, ?_⟩, rfl, ?_, ?_⟩
  · apply Lib.Processes.nodup_map_append hdb.accounts
    rwa [haccount]
  · intro e he
    rcases mem_append.mp he with hold | hnew
    · exact hdb.snapshotIds e hold
    · rw [mem_singleton.mp hnew, hid, haccount]
  · intro e he source
    rcases mem_append.mp he with hold | hnew
    · exact hdb.sources e hold source
    · rw [mem_singleton.mp hnew]
      exact hsource source
  · show List.find? _ (_ ++ _) = _
    rw [find?_append]
    have hnone : List.find? (fun e => decide (e.billingAccountId = account))
        db.entitlementSnapshots = none := hfind
    rw [hnone]
    simp [haccount]
  · intro a ha
    show List.find? _ (_ ++ _) = List.find? _ _
    have hnot : ¬ account = a := fun h => ha h.symm
    simp [haccount, hnot]

end Snapshots

end SuperFunctions.Billfn.ProjectionWrites
