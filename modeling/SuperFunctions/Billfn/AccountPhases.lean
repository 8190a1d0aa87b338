import SuperFunctions.Billfn.AccountEntitlements

/-!
# The phases of a projection that runs alone

What the call has read is still in the tables, and from the write of the subscription on only the
snapshot of its account is left to be written.
-/
namespace SuperFunctions.Billfn.AccountPhases

open Subscriptions Projections ProjectionWrites AccountEntitlements

variable {account : String} {choice : Choice}

section Phases

variable (catalog : BillFnCatalog) (parseDate : String → Option Int)

/-- What the caller has read before it asked its provider. -/
def Asked (db : Tables) : Asking → Prop
  | .fetchSubscription s _ _ => s ∈ db.subscriptions
  | .cancelSubscription account s plan _ =>
    s ∈ db.subscriptions ∧ s.billingAccountId = account ∧ s.planKey = plan.planKey
  | .changeSubscription account s plan _ _ _ =>
    s ∈ db.subscriptions ∧ s.billingAccountId = account ∧ s.planKey = plan.planKey
  | .resumeSubscription account s plan _ =>
    s ∈ db.subscriptions ∧ s.billingAccountId = account ∧ s.planKey = plan.planKey
  | .refundCharge _ s => s ∈ db.subscriptions
  | .verifyCheckout .. => True
  | .restorePurchases .. => True

/-- What holds at each phase of the only call that is under way. -/
def PhaseInv (db : Tables) : Phase → Prop
  | .asking provider => All db ∧ Asked db provider
  | .context _ _ _ subscription => All db ∧ ∀ s, subscription = some s → s ∈ db.subscriptions
  | .attempt _ _ base => All db ∧ ∀ s, base = some s → s ∈ db.subscriptions
  | .session input s => Pending db input.billingAccountId input.plan s
  | .readSnapshot n account plan s _ => n = 0 ∧ Pending db account plan s
  | .writeSnapshot n account plan s _ existing =>
    n = 0 ∧ Pending db account plan s ∧ existing = findEntitlementSnapshot db account
  | _ => All db

variable {catalog parseDate} {db db' : Tables}

theorem phaseInv_same (h : Same db db') {phase : Phase} (hphase : PhaseInv db phase) :
    PhaseInv db' phase := by
  have hsubs := h.subscriptions
  cases phase with
  | asking provider =>
    have hasked : Asked db' provider = Asked db provider := by
      cases provider <;> simp only [Asked, hsubs]
    exact ⟨h.all hphase.1, hasked ▸ hphase.2⟩
  | context p e st sub | attempt n input base => exact ⟨h.all hphase.1, hsubs ▸ hphase.2⟩
  | session input s => exact h.pending hphase
  | readSnapshot n account plan s t => exact ⟨hphase.1, h.pending hphase.2⟩
  | writeSnapshot n account plan s t existing =>
    exact ⟨hphase.1, h.pending hphase.2.1, hphase.2.2.trans (h.find account).symm⟩
  | entered | lookup input | reread n input id | relookup n input | recordBillingEvent s
  | finished s | threw e => exact h.all hphase

theorem phaseInv_withPrice (hall : All db) {planKey priceId : String}
    {next : BillFnPlanDefinition → BillFnPriceDefinition → Phase}
    (h : ∀ plan price, planKey = plan.planKey → PhaseInv db (next plan price)) :
    PhaseInv db (withPrice catalog planKey priceId next) := by
  unfold withPrice
  split
  · exact hall
  rename_i plan hplan
  split
  · exact hall
  · have hkey : plan.planKey = planKey := by
      simpa using List.find?_some hplan
    exact h plan _ hkey.symm

theorem phaseInv_withSubscription (hall : All db) {id : Option String}
    {next : BillFnSubscription → BillFnPlanDefinition → BillFnPriceDefinition → Phase}
    (h : ∀ s plan price, s ∈ db.subscriptions → s.billingAccountId = account →
      s.planKey = plan.planKey → PhaseInv db (next s plan price)) :
    PhaseInv db (withSubscription catalog db account id next) := by
  unfold withSubscription
  split
  · exact hall
  · rename_i s hs
    obtain ⟨hmem, haccount⟩ := mem_of_forAccount hs
    exact phaseInv_withPrice hall fun plan price hplan => h s plan price hmem haccount hplan

theorem phaseInv_apply (hall : All db) {input : ApplyVerificationStateInput}
    (h : ∀ s, input.subscription = some s → s ∈ db.subscriptions) :
    PhaseInv db (applyVerificationState input) := by
  unfold applyVerificationState
  split
  · rename_i s hs
    refine ⟨hall, fun t ht => ?_⟩
    cases ht
    exact h s hs
  · exact hall

theorem phaseInv_sync (hall : All db) (id : String) :
    PhaseInv db (syncSubscriptionById catalog db id) := by
  unfold syncSubscriptionById
  split
  · exact hall
  · rename_i s hs
    split
    · exact phaseInv_withPrice hall fun plan price _ => ⟨hall, mem_of_getById hs⟩
    · exact hall

theorem same_account (db : Tables) (account : String) :
    Same db (getOrCreateBillingAccount db account) := by
  unfold getOrCreateBillingAccount
  split <;> exact ⟨rfl, rfl⟩

theorem enter_spec (hall : All db) {request : Request} {phase : Phase}
    (h : enter catalog db request = (db', phase)) : Same db db' ∧ PhaseInv db phase := by
  have hsame : Same db db := ⟨rfl, rfl⟩
  cases request with
  | processParsedWebhookEvent provider event =>
    simp only [enter] at h
    split at h <;> cases h
    · exact ⟨hsame, hall⟩
    · exact ⟨hsame, hall, fun s hs => mem_of_byProviderRef hs⟩
  | syncSubscriptionById id =>
    cases h
    exact ⟨hsame, phaseInv_sync hall id⟩
  | syncSubscription account id =>
    cases h
    refine ⟨same_account db account, ?_⟩
    split
    · exact hall
    have hacc := same_account db account
    have hsync : ∀ id, PhaseInv (getOrCreateBillingAccount db account)
        (syncSubscriptionById catalog (getOrCreateBillingAccount db account) id) :=
      phaseInv_sync (hacc.all hall)
    have hback : Same (getOrCreateBillingAccount db account) db :=
      ⟨hacc.subscriptions.symm, hacc.snapshots.symm⟩
    exact phaseInv_same hback (hsync _)
  | verifyCheckout account session =>
    simp only [enter, verifyCheckout] at h
    split at h <;> cases h
    · exact ⟨hsame, hall⟩
    · refine ⟨same_account db account, ?_⟩
      split
      · exact hall
      · exact phaseInv_withPrice hall fun plan price _ => ⟨hall, trivial⟩
  | cancelSubscription account id | resumeSubscription account id =>
    cases h
    exact ⟨same_account db account, phaseInv_withSubscription hall
      fun s plan price hs hacc hplan => ⟨hall, hs, hacc, hplan⟩⟩
  | changeSubscription account id target effectiveAt =>
    cases h
    refine ⟨same_account db account, ?_⟩
    apply phaseInv_withSubscription hall
    intro s plan price hs hacc hplan
    split
    · exact hall
    · split
      · exact hall
      · exact ⟨hall, hs, hacc, hplan⟩
  | refundCharge account id charge =>
    cases h
    refine ⟨same_account db account, ?_⟩
    unfold refundCharge
    split
    · exact hall
    · rename_i s hs
      split
      · exact hall
      · exact ⟨hall, (mem_of_forAccount hs).1⟩
  | restorePurchases account provider planKey priceId reference =>
    cases h
    refine ⟨same_account db account, ?_⟩
    unfold restorePurchases
    split
    · exact hall
    split
    · exact hall
    · exact hall
    · split
      · exact ⟨hall, trivial⟩
      · exact hall

theorem phaseInv_project (hall : All db) {provider : String} {event : BillFnParsedWebhookEvent}
    {state : BillFnVerifiedBillingState} {subscription : Option BillFnSubscription}
    (hsub : ∀ s, subscription = some s → s ∈ db.subscriptions)
    (account : String) (plan : BillFnPlanDefinition) (price : BillFnPriceDefinition) :
    PhaseInv db
      (match resolveProviderEventPriceReference catalog db provider event state subscription with
      | .error error => .threw error
      | .ok eventPrice => applyVerificationState
          { billingAccountId := account
            plan := (eventPrice.map (·.1)).getD plan
            price := (eventPrice.map (·.2)).getD price
            checkoutSession := findCheckoutSessionByProviderRef db provider
              state.providerSubscriptionId state.providerChargeId event.checkoutReferenceId
            subscription := subscription
            state := state
            occurredAt := event.occurredAt }) := by
  split
  · exact hall
  · exact phaseInv_apply hall hsub

theorem eventContext_spec (hall : All db) {provider : String} {event : BillFnParsedWebhookEvent}
    {state : BillFnVerifiedBillingState} {subscription : Option BillFnSubscription}
    (hsub : ∀ s, subscription = some s → s ∈ db.subscriptions) :
    PhaseInv db (eventContext catalog parseDate db provider event state subscription) := by
  cases subscription with
  | some s =>
    simp only [eventContext]
    split
    · apply phaseInv_withPrice hall
      intro plan price _
      split
      · split
        · exact hall
        · exact phaseInv_project hall hsub _ _ _
      · exact phaseInv_project hall hsub _ _ _
    · exact hall
  | none =>
    simp only [eventContext]
    split
    · exact hall
    rename_i session _
    split
    · apply phaseInv_withPrice hall
      intro plan price _
      exact phaseInv_project hall hsub session.billingAccountId plan price
    · exact hall

variable {plan : BillFnPlanDefinition} {s : BillFnSubscription}

theorem ensureSnapshot_spec (hall : All db) (hs : s ∈ db.subscriptions)
    (haccount : s.billingAccountId = account) (hplan : s.planKey = plan.planKey) (now : Int) :
    PhaseInv db (ensureSnapshot db account plan s now) := by
  unfold ensureSnapshot
  split
  · exact hall
  rename_i hnone
  refine ⟨rfl, hs, haccount, hplan, .inr fun t ht => ?_, fun a _ => hall a⟩
  obtain ⟨e, he, _⟩ := (hall account).granted t ht
  apply hnone
  rw [he]
  rfl

variable {price : BillFnPriceDefinition}

theorem operated_spec (hall : All db) (hs : s ∈ db.subscriptions)
    (haccount : s.billingAccountId = account) (hplan : s.planKey = plan.planKey)
    (state : Option BillFnVerifiedBillingState) (now : Int) :
    PhaseInv db (operated db account s plan price state now) := by
  unfold operated
  split
  · apply phaseInv_apply hall
    intro t ht
    cases ht
    exact hs
  · exact ensureSnapshot_spec hall hs haccount hplan now

theorem restored_spec (hall : All db) {provider : String} {reference : Option String}
    (states : List BillFnVerifiedBillingState) :
    PhaseInv db (restoredPurchase catalog db account provider plan price reference states) := by
  induction states with
  | nil => exact hall
  | cons state states ih =>
    have hfresh : PhaseInv db
        (applyVerificationState ⟨account, plan, price, none, none, state, none⟩) :=
      phaseInv_apply hall fun s hs => by cases hs
    simp only [restoredPurchase]
    split
    · rename_i s hs
      split
      · apply phaseInv_withPrice hall
        intro plan' price' _
        split
        · apply phaseInv_apply hall
          intro t ht
          cases ht
          exact mem_of_byProviderRef hs
        · exact ih
      · exact hfresh
    · split
      · exact hfresh
      split
      · apply phaseInv_withPrice hall
        intro plan' price' _
        split
        · exact phaseInv_apply hall fun s hs => by cases hs
        · exact ih
      · exact hfresh

theorem answered_spec (hall : All db) {provider : Asking} {phase : Phase}
    (hasked : Asked db provider) (h : answered catalog db choice provider = (db', phase)) :
    Same db db' ∧ PhaseInv db' phase := by
  have hsame : Same db db := ⟨rfl, rfl⟩
  cases provider with
  | fetchSubscription s plan price =>
    simp only [answered] at h
    split at h <;> cases h
    · refine ⟨hsame, phaseInv_apply hall fun t ht => ?_⟩
      cases ht
      exact hasked
    · exact ⟨hsame, hall⟩
    · exact ⟨hsame, hall⟩
  | verifyCheckout account session plan price =>
    simp only [answered] at h
    split at h <;> cases h
    · exact ⟨hsame, phaseInv_apply hall fun t ht => by cases ht⟩
    · exact ⟨hsame, hall⟩
  | cancelSubscription account s plan price =>
    obtain ⟨hs, hacc, hplan⟩ := hasked
    simp only [answered] at h
    split at h <;> cases h
    · exact ⟨hsame, operated_spec hall hs hacc hplan _ _⟩
    · exact ⟨hsame, operated_spec hall hs hacc hplan _ _⟩
    · exact ⟨hsame, hall⟩
  | changeSubscription account s plan price target effectiveAt =>
    obtain ⟨hs, hacc, hplan⟩ := hasked
    simp only [answered] at h
    split at h
    · rename_i operationStatus state hanswer
      have hdb : Same db { db with subscriptionChangeRequests := db.subscriptionChangeRequests ++
          [⟨s.id, target.2.priceId, effectiveAt,
            if operationStatus = "applied" then "applied" else "requires_action", choice.now⟩] } :=
        ⟨rfl, rfl⟩
      cases h
      refine ⟨hdb, ?_⟩
      cases state with
      | some state =>
        apply phaseInv_apply (hdb.all hall)
        intro t ht
        cases ht
        exact hs
      | none => exact ensureSnapshot_spec (hdb.all hall) hs hacc hplan _
    · cases h
      exact ⟨hsame, hall⟩
  | resumeSubscription account s plan price =>
    obtain ⟨hs, hacc, hplan⟩ := hasked
    simp only [answered] at h
    split at h <;> cases h
    · exact ⟨hsame, operated_spec hall hs hacc hplan _ _⟩
    · exact ⟨hsame, hall⟩
  | refundCharge account s =>
    simp only [answered] at h
    split at h <;> cases h
    · refine ⟨hsame, phaseInv_withPrice hall fun plan price _ => ?_⟩
      split
      · apply phaseInv_apply hall
        intro t ht
        cases ht
        exact hasked
      · exact hall
    · exact ⟨hsame, hall⟩
  | restorePurchases account provider plan price reference =>
    simp only [answered] at h
    split at h <;> cases h
    · exact ⟨hsame, hall⟩
    · exact ⟨hsame, restored_spec hall _⟩
    · exact ⟨hsame, hall⟩

variable {base : Option BillFnSubscription}

theorem writeProjection_spec (hdb : Consistent db) (hall : All db) {n : Nat}
    {input : ApplyVerificationStateInput} {phase : Phase}
    (hbase : ∀ s, base = some s → s ∈ db.subscriptions)
    (haccount : ∀ s, base = some s → s.billingAccountId = input.billingAccountId)
    (hcareful : CarefulWrite db input base)
    (h : writeProjection db choice n input base = (db', phase)) :
    Consistent db' ∧ PhaseInv db' phase := by
  have hwritten : ∀ written : Tables,
      Written db written (projectedSubscription base input choice.now choice.generatedId) →
      Consistent written ∧ PhaseInv written (.session input
        (projectedSubscription base input choice.now choice.generatedId)) := by
    intro written hw
    refine ⟨hw.consistent hdb, pending_of_written hall hw rfl rfl ?_⟩
    rcases hcareful with hc | hc
    · exact .inl hc
    refine .inr fun s hs hacc hst => ?_
    have hid := hc s hs hacc hst
    show s.id = (base.map (·.id)).getD choice.generatedId
    rw [hid]
    rfl
  cases base with
  | some row =>
    have hrow := hbase row rfl
    have hlater : row.updatedAt <
        (projectedSubscription (some row) input choice.now choice.generatedId).updatedAt :=
      nextSubscriptionUpdatedAt_gt choice.now row.updatedAt
    have hid : (projectedSubscription (some row) input choice.now choice.generatedId).id
        = row.id := rfl
    simp only [writeProjection] at h
    split at h
    · split at h
      · cases h
        exact ⟨hdb, hall⟩
      rename_i written affected hwrite
      have htest : ∀ s ∈ db.subscriptions,
          decide (s.id = row.id ∧ s.updatedAt = row.updatedAt) = true ↔ s = row := by
        intro s hs
        rw [decide_eq_true_eq]
        exact ⟨fun hsame => row_unique hdb hs hrow hsame.1, fun hsame => by rw [hsame]; exact ⟨rfl, rfl⟩⟩
      obtain ⟨hone, hw⟩ :=
        written_replace hdb hrow htest hid hlater (haccount row rfl) hwrite
      rw [if_pos hone] at h
      cases h
      exact hwritten _ hw
    · split at h
      · cases h
        exact ⟨hdb, hall⟩
      rename_i written affected hwrite
      have htest : ∀ s ∈ db.subscriptions, decide (s.id = row.id) = true ↔ s = row := by
        intro s hs
        rw [decide_eq_true_eq]
        exact ⟨row_unique hdb hs hrow, fun hsame => by rw [hsame]⟩
      obtain ⟨hone, hw⟩ :=
        written_replace hdb hrow htest hid hlater (haccount row rfl) hwrite
      rw [if_neg (by omega)] at h
      cases h
      exact hwritten _ hw
  | none =>
    simp only [writeProjection] at h
    split at h
    · rename_i created hcreate
      cases h
      exact hwritten _ (written_create hdb hcreate)
    · cases h
      exact ⟨hdb, hall⟩

theorem attempt_spec (hdb : Consistent db) (hall : All db) {n : Nat}
    {input : ApplyVerificationStateInput} {phase : Phase}
    (hbase : ∀ s, base = some s → s ∈ db.subscriptions) (hcareful : CarefulWrite db input base)
    (h : attempt parseDate db choice n input base = (db', phase)) :
    Consistent db' ∧ PhaseInv db' phase := by
  unfold attempt at h
  split at h
  · cases h
    exact ⟨hdb, hall⟩
  split at h
  · cases h
    exact ⟨hdb, hall⟩
  rename_i haccount
  have hown : ∀ s, base = some s → s.billingAccountId = input.billingAccountId := by
    intro s hs
    rwa [hs, Option.any_some, decide_eq_true_eq, not_not] at haccount
  split at h
  · cases h
    exact ⟨hdb, hall⟩
  · split at h
    · cases h
      exact ⟨hdb, hall⟩
    · exact writeProjection_spec hdb hall hbase hown hcareful h

theorem advance_spec (hdb : Consistent db) {request : Request} {phase phase' : Phase}
    (hinv : PhaseInv db phase) (hcareful : Careful db ⟨request, phase⟩ choice)
    (h : advance catalog parseDate db choice request phase = some (db', phase')) :
    Consistent db' ∧ PhaseInv db' phase' := by
  obtain ⟨hworks, hwrite⟩ := hcareful
  cases phase with
  | entered =>
    simp only [advance, hworks, Bool.false_eq_true, if_false] at h
    obtain ⟨hsame, hphase⟩ := enter_spec hinv (Option.some.inj h)
    exact ⟨hsame.consistent hdb, phaseInv_same hsame hphase⟩
  | asking provider =>
    obtain ⟨hsame, hphase⟩ := answered_spec hinv.1 hinv.2 (Option.some.inj h)
    exact ⟨hsame.consistent hdb, hphase⟩
  | context provider event state subscription =>
    simp only [advance, hworks, Bool.false_eq_true, if_false] at h
    cases h
    exact ⟨hdb, eventContext_spec hinv.1 hinv.2⟩
  | lookup input =>
    simp only [advance, hworks, Bool.false_eq_true, if_false] at h
    cases h
    exact ⟨hdb, hinv, fun s hs => mem_of_byProviderRef hs⟩
  | attempt n input base =>
    exact attempt_spec hdb hinv.1 hinv.2 hwrite (Option.some.inj h)
  | reread n input id =>
    simp only [advance, hworks, Bool.false_eq_true, if_false] at h
    split at h <;> cases h
    · exact ⟨hdb, hinv⟩
    · rename_i current hcurrent
      refine ⟨hdb, hinv, fun s hs => ?_⟩
      cases hs
      exact mem_of_getById hcurrent
  | relookup n input =>
    simp only [advance, hworks, Bool.false_eq_true, if_false] at h
    split at h <;> cases h
    · exact ⟨hdb, hinv⟩
    · rename_i found hfound
      refine ⟨hdb, hinv, fun s hs => ?_⟩
      cases hs
      exact mem_of_byProviderRef hfound
  | session input s =>
    simp only [advance, hworks, Bool.false_eq_true, if_false] at h
    have hpending : Pending db input.billingAccountId input.plan s := hinv
    cases hsession : input.checkoutSession with
    | none =>
      rw [hsession] at h
      cases h
      exact ⟨hdb, rfl, hpending⟩
    | some session =>
      have hsame : Same db (updateCheckoutSession db input session s.updatedAt) := ⟨rfl, rfl⟩
      rw [hsession] at h
      cases h
      exact ⟨hsame.consistent hdb, rfl, hsame.pending hpending⟩
  | readSnapshot n account plan s timestamp =>
    obtain ⟨hn, hpending⟩ := hinv
    subst hn
    simp only [advance, hworks, Bool.false_eq_true, if_false] at h
    have hnewer : ¬ ((findEntitlementSnapshot db account).any fun snapshot =>
        isEntitlementFromNewerSubscription snapshot s) = true := by
      rw [Option.any_eq_true]
      rintro ⟨e, he, hnew⟩
      rw [not_newer hdb hpending.member (mem_of_findSnapshot he)] at hnew
      cases hnew
    rw [if_neg (by omega), if_neg hnewer] at h
    cases h
    exact ⟨hdb, rfl, hpending, rfl⟩
  | writeSnapshot n account plan s timestamp existing =>
    obtain ⟨hn, hpending, hread⟩ := hinv
    subst hn hread
    simp only [advance, hworks, Bool.false_eq_true, if_false] at h
    obtain ⟨written, hupsert, hconsistent, hall⟩ := upsert_spec hdb hpending 0 timestamp
    rw [hupsert] at h
    cases h
    exact ⟨hconsistent, hall⟩
  | recordBillingEvent s =>
    simp only [advance, hworks, Bool.false_eq_true, if_false] at h
    cases h
    exact ⟨hdb, hinv⟩
  | finished s => cases h
  | threw e => cases h

end Phases

end SuperFunctions.Billfn.AccountPhases

/-!
# The entitlements of an account over a sequence of requests
-/
namespace SuperFunctions.Billfn.AccountRuns

open Lib.Processes Lib.Transition Subscriptions Projections ProjectionWrites
open AccountEntitlements AccountPhases

section Runs

variable {catalog : BillFnCatalog} {parseDate : String → Option Int} {db : Tables}

structure Inv (s : Deployment) : Prop where
  consistent : Consistent s.shared
  under : ∀ (i : Nat) (call : Call), s.procs[i]? = some call → Done call.phase = false →
    PhaseInv s.shared call.phase ∧
      ∀ (j : Nat) (other : Call), s.procs[j]? = some other → j ≠ i → Done other.phase = true
  settled : (∀ call ∈ s.procs, Done call.phase = true) → All s.shared

theorem all_of_done {db : Tables} {phase : Phase} (hdone : Done phase = true)
    (h : PhaseInv db phase) : All db := by
  cases phase with
  | finished s => exact h
  | threw e => exact h
  | _ => cases hdone

theorem active_of_advance {db db' : Tables} {choice : Choice} {request : Request}
    {phase phase' : Phase}
    (h : advance catalog parseDate db choice request phase = some (db', phase')) :
    Done phase = false := by
  cases phase with
  | finished s => cases h
  | threw e => cases h
  | _ => rfl

theorem inv_step (s : Deployment) (a : Act Request Choice) (s' : Deployment) (hinv : Inv s)
    (hturn : InTurn s a) (h : deploymentStep catalog parseDate s a = some s') : Inv s' := by
  rcases act_cases h with ⟨request, rfl, rfl⟩ | ⟨i, choice, call, db, call', rfl, hcall, hmove, rfl⟩
  · have hall : All s.shared := hinv.settled hturn
    refine ⟨hinv.consistent, ?_, ?_⟩
    · intro i call hcall hactive
      by_cases hi : i < s.procs.length
      · rw [List.getElem?_append_left hi] at hcall
        rw [hturn call (List.mem_of_getElem? hcall)] at hactive
        cases hactive
      have hlast : i = s.procs.length := by
        have hlt := (List.getElem?_eq_some_iff.mp hcall).1
        rw [List.length_append, List.length_singleton] at hlt
        omega
      subst hlast
      have hnew : call = newCall request := by simpa using hcall.symm
      subst hnew
      refine ⟨hall, fun j other hother hj => ?_⟩
      have hlt : j < s.procs.length := by
        have hbound := (List.getElem?_eq_some_iff.mp hother).1
        rw [List.length_append, List.length_singleton] at hbound
        omega
      rw [List.getElem?_append_left hlt] at hother
      exact hturn other (List.mem_of_getElem? hother)
    · intro hdone
      have hnew := hdone (newCall request) (by simp)
      cases hnew
  · obtain ⟨r, hadvance, hr⟩ := Option.map_eq_some_iff.mp hmove
    obtain ⟨db', phase'⟩ := r
    cases hr
    have hactive := active_of_advance hadvance
    obtain ⟨hphase, hothers⟩ := hinv.under i call hcall hactive
    obtain ⟨hconsistent, hphase'⟩ :=
      advance_spec hinv.consistent hphase (hturn call hcall) hadvance
    have hlt : i < s.procs.length := (List.getElem?_eq_some_iff.mp hcall).1
    have hset : (s.procs.set i { call with phase := phase' })[i]?
        = some { call with phase := phase' } := List.getElem?_set_self hlt
    refine ⟨hconsistent, ?_, ?_⟩
    · intro j other hother hactive'
      by_cases hj : j = i
      · subst hj
        rw [hset] at hother
        cases hother
        refine ⟨hphase', fun k third hthird hk => ?_⟩
        rw [List.getElem?_set_ne (fun he => hk he.symm)] at hthird
        exact hothers k third hthird hk
      · rw [List.getElem?_set_ne (fun he => hj he.symm)] at hother
        rw [hothers j other hother hj] at hactive'
        cases hactive'
    · intro hdone
      exact all_of_done (hdone _ (List.mem_of_getElem? hset)) hphase'

/-- After any sequence of requests, handled one after another, the snapshot of every account
reflects all of its subscriptions, when no projection takes a subscription out of service while
another one of the account is in service. -/
theorem entitlements_reflect_account {acts : List (Act Request Choice)} {s : Deployment}
    (hdb : Consistent db) (hall : All db)
    (hturn : Guarded (deploymentStep catalog parseDate) InTurn ⟨db, []⟩ acts)
    (hrun : run (deploymentStep catalog parseDate) ⟨db, []⟩ acts = some s)
    (hdone : ∀ call ∈ s.procs, Done call.phase = true) (account : String) :
    Reflects s.shared account := by
  have hstart : Inv (⟨db, []⟩ : Deployment) :=
    ⟨hdb, by simp, fun _ => hall⟩
  exact (guarded_run_invariant _ inv_step hstart hturn hrun).settled hdone account

end Runs

section Samples

def proPlan : BillFnPlanDefinition := ⟨"pro", [("sync", true)], [("storage", 10)],
  [⟨"pro_month", "dodo", "prod_1"⟩]⟩

def teamPlan : BillFnPlanDefinition := ⟨"team", [("sync", true)], [("storage", 50)],
  [⟨"team_month", "dodo", "prod_2"⟩]⟩

/-- An account with two open checkouts. -/
def twoCheckouts : Tables where
  billingAccounts := ["acct"]
  subscriptions := []
  checkoutSessions :=
    [⟨"chk_1", "acct", "pro", "pro_month", "dodo", none, none, none, "pending", none, 0⟩,
      ⟨"chk_2", "acct", "team", "team_month", "dodo", none, none, none, "pending", none, 0⟩]
  entitlementSnapshots := []
  subscriptionChangeRequests := []

def billingState (ref : String) (status : SubscriptionStatus) : BillFnVerifiedBillingState :=
  ⟨status, "succeeded", some ref, none, none, none, none, none⟩

/-- Some moves of one call, made at one time. -/
def moves (count i : Nat) (now : Int) (id : String) (answer : Answer) : List (Act Request Choice) :=
  List.replicate count (.move i ⟨now, id, false, answer⟩)

/-- Both checkouts are verified. -/
def bothVerified : List (Act Request Choice) :=
  .spawn (.verifyCheckout "acct" "chk_1") ::
      moves 8 0 1 "sub_1" (.state (billingState "ref_1" .active)) ++
    .spawn (.verifyCheckout "acct" "chk_2") ::
      moves 8 1 2 "sub_2" (.state (billingState "ref_2" .active))

def sampleStep : Deployment → Act Request Choice → Option Deployment :=
  deploymentStep [proPlan, teamPlan] (fun _ => none)

theorem twoCheckouts_consistent : Consistent twoCheckouts :=
  ⟨List.nodup_nil, List.nodup_nil, by simp [twoCheckouts], by simp [twoCheckouts]⟩

theorem twoCheckouts_all : All twoCheckouts := by
  intro account
  constructor
  · rintro s ⟨hs, _⟩
    cases hs
  · intro _ e he
    cases he

theorem bothVerified_reflected :
    Guarded sampleStep InTurn ⟨twoCheckouts, []⟩ bothVerified ∧
    ∃ s, run sampleStep ⟨twoCheckouts, []⟩ bothVerified = some s ∧
      (∀ call ∈ s.procs, Done call.phase = true) ∧ Reflects s.shared "acct" := by
  have hturn : Guarded sampleStep InTurn ⟨twoCheckouts, []⟩ bothVerified := by decide +kernel
  have hends : (run sampleStep ⟨twoCheckouts, []⟩ bothVerified).map
      (fun s => s.procs.all fun call => Done call.phase) = some true := by
    decide +kernel
  obtain ⟨s, hrun, hall⟩ := Option.map_eq_some_iff.mp hends
  have hdone : ∀ call ∈ s.procs, Done call.phase = true := List.all_eq_true.mp hall
  exact ⟨hturn, s, hrun, hdone,
    entitlements_reflect_account twoCheckouts_consistent twoCheckouts_all hturn hrun hdone "acct"⟩

/-- Then the first subscription is canceled at its provider. -/
def cancelOfOne : List (Act Request Choice) :=
  bothVerified ++ .spawn (.cancelSubscription "acct" (some "sub_1")) :: moves 7 2 3 "" .nothing

/-- The account loses its entitlements although its second subscription is active. -/
theorem cancelOfOne_withholds :
    ∃ s, run sampleStep ⟨twoCheckouts, []⟩ cancelOfOne = some s ∧
      s.procs.all (fun call => Done call.phase) = true ∧
      s.shared.subscriptions.map (·.status) = [.canceled, .active] ∧
      s.shared.subscriptions.map (·.billingAccountId) = ["acct", "acct"] ∧
      (findEntitlementSnapshot s.shared "acct").map (·.status) = some .inactive := by
  have hends : (run sampleStep ⟨twoCheckouts, []⟩ cancelOfOne).any (fun s =>
      s.procs.all (fun call => Done call.phase) &&
      s.shared.subscriptions.map (·.status) == [.canceled, .active] &&
      s.shared.subscriptions.map (·.billingAccountId) == ["acct", "acct"] &&
      (findEntitlementSnapshot s.shared "acct").map (·.status) == some .inactive) = true := by
    decide +kernel
  obtain ⟨s, hrun, hfacts⟩ := (Option.any_eq_true _ _).mp hends
  simp only [Bool.and_eq_true, beq_iff_eq] at hfacts
  exact ⟨s, hrun, hfacts.1.1.1, hfacts.1.1.2, hfacts.1.2, hfacts.2⟩

end Samples

end SuperFunctions.Billfn.AccountRuns
