import SuperFunctions.Billfn.ProjectionWrites

/-!
# What the entitlements of an account reflect

An account has one snapshot, and it is computed from the subscription that was projected last. So
it speaks for the whole account only as long as no projection takes a subscription out of service
while another one of the account is in service.
-/
namespace SuperFunctions.Billfn.AccountEntitlements

open Lib.Processes Subscriptions Projections ProjectionWrites

/-- The states of a subscription that entitle its account. -/
def Entitling (status : SubscriptionStatus) : Prop :=
  status ∈ [SubscriptionStatus.trialing, .active, .grace, .past_due]

instance (status : SubscriptionStatus) : Decidable (Entitling status) :=
  inferInstanceAs (Decidable (_ ∈ _))

theorem map_inactive_iff (status : SubscriptionStatus) :
    mapSubscriptionToEntitlementStatus status = .inactive ↔ ¬ Entitling status := by
  cases status <;> decide

def EntitledBy (db : Tables) (account : String) (s : BillFnSubscription) : Prop :=
  s ∈ db.subscriptions ∧ s.billingAccountId = account ∧ Entitling s.status

/-- The snapshot of the account speaks for all of its subscriptions. -/
structure Reflects (db : Tables) (account : String) : Prop where
  granted : ∀ s, EntitledBy db account s →
    ∃ e, findEntitlementSnapshot db account = some e ∧ e.status ≠ .inactive ∧
      ∃ s', EntitledBy db account s' ∧ e.planKey = s'.planKey
  withheld : (∀ s, ¬ EntitledBy db account s) →
    ∀ e, findEntitlementSnapshot db account = some e → e.status = .inactive

def All (db : Tables) : Prop := ∀ account, Reflects db account

/-- The subscription was projected and the snapshot of its account is written next. -/
structure Pending (db : Tables) (account : String) (plan : BillFnPlanDefinition)
    (subscription : BillFnSubscription) : Prop where
  member : subscription ∈ db.subscriptions
  owner : subscription.billingAccountId = account
  onPlan : subscription.planKey = plan.planKey
  decides : Entitling subscription.status ∨ ∀ s, ¬ EntitledBy db account s
  others : ∀ a, a ≠ account → Reflects db a

/-- A projection writes a subscription that entitles, or no other one of the account does. -/
def CarefulWrite (db : Tables) (input : ApplyVerificationStateInput)
    (base : Option BillFnSubscription) : Prop :=
  Entitling input.state.subscriptionStatus ∨
  ∀ s ∈ db.subscriptions, s.billingAccountId = input.billingAccountId → Entitling s.status →
    base.map (·.id) = some s.id

instance (db : Tables) (input : ApplyVerificationStateInput)
    (base : Option BillFnSubscription) : Decidable (CarefulWrite db input base) :=
  inferInstanceAs (Decidable (_ ∨ _))

def Careful (db : Tables) (call : Call) (choice : Choice) : Prop :=
  choice.fails = false ∧
  match call.phase with
  | .attempt _ input base => CarefulWrite db input base
  | _ => True

instance (db : Tables) (call : Call) (choice : Choice) : Decidable (Careful db call choice) := by
  unfold Careful
  cases call.phase <;> infer_instance

def Done : Phase → Bool
  | .finished _ => true
  | .threw _ => true
  | _ => false

/-- One request after another, none of them cut short by the adapter. -/
def InTurn (s : Deployment) : Act Request Choice → Prop
  | .spawn _ => ∀ call ∈ s.procs, Done call.phase = true
  | .move i choice => ∀ call ∈ s.procs[i]?, Careful s.shared call choice

instance (s : Deployment) : (a : Act Request Choice) → Decidable (InTurn s a)
  | .spawn _ => inferInstanceAs (Decidable (∀ call ∈ s.procs, _))
  | .move i _ => inferInstanceAs (Decidable (∀ call ∈ s.procs[i]?, _))

/-- The two tables the statement is about. -/
structure Same (db db' : Tables) : Prop where
  subscriptions : db'.subscriptions = db.subscriptions
  snapshots : db'.entitlementSnapshots = db.entitlementSnapshots

variable {s : BillFnSubscription}

section Same

variable {db db' : Tables}

section

variable (h : Same db db')
include h

theorem Same.consistent (hdb : Consistent db) : Consistent db' := by
  obtain ⟨hs, he⟩ := h
  refine ⟨?_, ?_, ?_, ?_⟩
  · rw [hs]
    exact hdb.ids
  · rw [he]
    exact hdb.accounts
  · rw [he]
    exact hdb.snapshotIds
  · rw [hs, he]
    exact hdb.sources

theorem Same.entitledBy (account : String) (s : BillFnSubscription) :
    EntitledBy db' account s ↔ EntitledBy db account s := by
  unfold EntitledBy
  rw [h.subscriptions]

theorem Same.find (account : String) :
    findEntitlementSnapshot db' account = findEntitlementSnapshot db account := by
  unfold findEntitlementSnapshot
  rw [h.snapshots]

theorem Same.reflects {account : String} (hdb : Reflects db account) :
    Reflects db' account where
  granted := by
    intro s hs
    obtain ⟨e, he, hactive, s', hs', hplan⟩ := hdb.granted s ((h.entitledBy account s).mp hs)
    exact ⟨e, (h.find account).trans he, hactive, s', (h.entitledBy account s').mpr hs', hplan⟩
  withheld := by
    intro hnone e he
    apply hdb.withheld
    · intro s hs
      exact hnone s ((h.entitledBy account s).mpr hs)
    · exact (h.find account).symm.trans he

theorem Same.all (hdb : All db) : All db' := fun account =>
  h.reflects (hdb account)

theorem Same.pending {account : String} {plan : BillFnPlanDefinition}
    (hp : Pending db account plan s) : Pending db' account plan s := { hp with
  member := by
    rw [h.subscriptions]
    exact hp.member
  decides := hp.decides.imp id fun hnone t ht => hnone t ((h.entitledBy account t).mp ht)
  others := fun a ha => h.reflects (hp.others a ha) }

end

end Same

section Writes

variable {db db' : Tables} {account : String} {plan : BillFnPlanDefinition}

theorem pending_of_written {record : BillFnSubscription} (hall : All db)
    (hw : Written db db' record) (haccount : record.billingAccountId = account)
    (hplan : record.planKey = plan.planKey)
    (hcareful : Entitling record.status ∨ ∀ s ∈ db.subscriptions,
      s.billingAccountId = account → Entitling s.status → s.id = record.id) :
    Pending db' account plan record := by
  refine ⟨(hw.rows record).mpr (.inl rfl), haccount, hplan, ?_, ?_⟩
  · by_cases hstatus : Entitling record.status
    · exact .inl hstatus
    refine .inr fun s hs => ?_
    rcases (hw.rows s).mp hs.1 with rfl | ⟨hold, hne⟩
    · exact hstatus hs.2.2
    · rcases hcareful with hc | hc
      · exact hstatus hc
      · exact hne (hc s hold hs.2.1 hs.2.2)
  · intro a ha
    have hfind : findEntitlementSnapshot db' a = findEntitlementSnapshot db a := by
      unfold findEntitlementSnapshot
      rw [hw.snapshots]
    have hsame : ∀ s, EntitledBy db' a s ↔ EntitledBy db a s := by
      intro s
      constructor
      · rintro ⟨hs, hacc, hst⟩
        rcases (hw.rows s).mp hs with rfl | ⟨hold, _⟩
        · exact absurd (hacc.symm.trans haccount) ha
        · exact ⟨hold, hacc, hst⟩
      · rintro ⟨hs, hacc, hst⟩
        refine ⟨(hw.rows s).mpr (.inr ⟨hs, fun hid => ?_⟩), hacc, hst⟩
        exact ha (hacc.symm.trans ((hw.later s hs hid).2.trans haccount))
    constructor
    · intro s hs
      obtain ⟨e, he, hactive, s', hs', hplan'⟩ := (hall a).granted s ((hsame s).mp hs)
      exact ⟨e, hfind.trans he, hactive, s', (hsame s').mpr hs', hplan'⟩
    · intro hnone e he
      exact (hall a).withheld (fun s hs => hnone s ((hsame s).mpr hs)) e (hfind.symm.trans he)

theorem all_of_snapped {existing : Option BillFnEntitlementSnapshot} {timestamp : Int}
    (hp : Pending db account plan s)
    (hsnap : Snapped db db' account (projectedSnapshot existing account plan s timestamp)) :
    All db' := by
  have hentitled : ∀ a t, EntitledBy db' a t ↔ EntitledBy db a t := by
    intro a t
    unfold EntitledBy
    rw [hsnap.rows]
  intro a
  by_cases ha : a = account
  · subst ha
    constructor
    · intro t ht
      have hstatus : Entitling s.status := by
        rcases hp.decides with h | h
        · exact h
        · exact absurd ((hentitled a t).mp ht) (h t)
      refine ⟨_, hsnap.own, ?_, s, (hentitled a s).mpr ⟨hp.member, hp.owner, hstatus⟩, ?_⟩
      · intro hinactive
        exact (map_inactive_iff s.status).mp hinactive hstatus
      · exact hp.onPlan.symm
    · intro hnone e he
      have heq := Option.some.inj (hsnap.own.symm.trans he)
      have hnot : ¬ Entitling s.status := fun hstatus =>
        hnone s ((hentitled a s).mpr ⟨hp.member, hp.owner, hstatus⟩)
      rw [← heq]
      exact (map_inactive_iff s.status).mpr hnot
  · have hold := hp.others a ha
    constructor
    · intro t ht
      obtain ⟨e, he, hactive, s', hs', hplan⟩ := hold.granted t ((hentitled a t).mp ht)
      exact ⟨e, (hsnap.others a ha).trans he, hactive, s', (hentitled a s').mpr hs', hplan⟩
    · intro hnone e he
      exact hold.withheld (fun t ht => hnone t ((hentitled a t).mpr ht)) e
        ((hsnap.others a ha).symm.trans he)

theorem upsert_spec (hdb : Consistent db) (hp : Pending db account plan s) (n : Nat)
    (timestamp : Int) :
    ∃ db', upsertEntitlements db n account plan s timestamp (findEntitlementSnapshot db account)
        = (db', .recordBillingEvent s) ∧ Consistent db' ∧ All db' := by
  have hsource : ∀ existing source,
      (projectedSnapshot existing account plan s timestamp).sourceEventId = some source →
      ∃ t ∈ db.subscriptions, t.id = source.1 ∧ source.2 ≤ t.updatedAt := by
    intro existing source h
    have heq : buildEntitlementSourceEventId s = source := Option.some.inj h
    subst heq
    exact ⟨s, hp.member, rfl, Int.le_refl _⟩
  cases hfind : findEntitlementSnapshot db account with
  | some row =>
    have haccount : (projectedSnapshot (some row) account plan s timestamp).billingAccountId
        = account := rfl
    obtain ⟨hone, hsnap⟩ := snapped_update hdb hfind haccount rfl (hsource (some row))
    refine ⟨_, ?_, hsnap.consistent, all_of_snapped hp hsnap⟩
    simp only [upsertEntitlements]
    rw [if_pos hone]
  | none =>
    have haccount : (projectedSnapshot none account plan s timestamp).billingAccountId
        = account := rfl
    obtain ⟨created, hcreate, hsnap⟩ := snapped_create hdb hfind haccount rfl (hsource none)
    refine ⟨created, ?_, hsnap.consistent, all_of_snapped hp hsnap⟩
    simp only [upsertEntitlements, hcreate]

theorem not_newer (hdb : Consistent db) (hs : s ∈ db.subscriptions) {e : BillFnEntitlementSnapshot}
    (he : e ∈ db.entitlementSnapshots) : isEntitlementFromNewerSubscription e s = false := by
  unfold isEntitlementFromNewerSubscription
  split
  · rename_i id time hsource
    obtain ⟨t, ht, hid, hle⟩ := hdb.sources e he (id, time) hsource
    rw [decide_eq_false_iff_not]
    rintro ⟨hsame, hlt⟩
    have hts : t = s := row_unique hdb ht hs (hid.trans hsame)
    subst hts
    omega
  · rfl

end Writes

end SuperFunctions.Billfn.AccountEntitlements
