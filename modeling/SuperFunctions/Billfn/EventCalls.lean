import SuperFunctions.Billfn.EventWrites

/-!
# The calls of a series of events

What a call has made sure of at each of its phases, and everything one of its moves can do to the
row of the series and to the snapshot of its account.
-/
namespace SuperFunctions.Billfn.EventCalls

open Subscriptions Projections ProjectionWrites EventSeries EventWrites

variable {parseDate : String → Option Int} (σ : Series parseDate) (catalog : BillFnCatalog)

section Phases

def IsSync : Request → Prop
  | .syncSubscriptionById _ => True
  | .syncSubscription _ _ => True
  | _ => False

instance : DecidablePred IsSync := fun request => by
  unfold IsSync
  split <;> infer_instance

/-- The requests of the series: its events, as often as they are delivered, and syncs. -/
def Known : Request → Prop
  | .processParsedWebhookEvent provider event => provider = σ.provider ∧ event ∈ σ.events
  | request => IsSync request

instance : DecidablePred (Known σ) := fun request => by
  unfold Known
  split <;> infer_instance

def EventOk (request : Request) (input : ApplyVerificationStateInput) : Prop :=
  ∃ event ∈ σ.events, request = .processParsedWebhookEvent σ.provider event ∧
    EventInput σ catalog event input

def SyncOk (request : Request) (input : ApplyVerificationStateInput) : Prop :=
  IsSync request ∧ SyncInput σ catalog input

/-- A row that an event is going to be compared with. -/
structure Base (db : Tables) (row : BillFnSubscription) : Prop where
  held : Held db row
  atMost : AtMost σ row
  calm : ∀ s ∈ db.subscriptions, s.id = row.id → AtMost σ s

/-- The record was written to the row of the series and the snapshot is written next. -/
structure Writes (db : Tables) (account : String) (plan : BillFnPlanDefinition)
    (record : BillFnSubscription) (timestamp : Int) : Prop where
  held : Held db record
  own : ∀ s ∈ db.subscriptions, s.id = record.id →
    Ours σ s ∧ s.billingAccountId = record.billingAccountId
  onAccount : record.billingAccountId = account
  listed : plan ∈ catalog
  onPlan : plan.planKey = record.planKey
  time : timestamp = record.updatedAt

/-- `free` says that the latest event has not been delivered yet. -/
def PhaseInv (db : Tables) (free : Prop) (request : Request) : Phase → Prop
  | .entered => Known σ request
  | .asking (.fetchSubscription row plan _) =>
    IsSync request ∧ Held db row ∧ plan ∈ catalog ∧ (free → Ours σ row → Old σ row)
  | .asking _ => False
  | .context provider event state subscription =>
    request = .processParsedWebhookEvent provider event ∧ provider = σ.provider ∧
      event ∈ σ.events ∧ event.billingState = some state ∧
      ∀ row, subscription = some row → Base σ db row
  | .lookup input => EventOk σ catalog request input
  | .attempt _ input base =>
    (EventOk σ catalog request input ∧ ∀ row, base = some row → Base σ db row) ∨
      (SyncOk σ catalog request input ∧ ∃ row, base = some row ∧ Held db row ∧ Ours σ row ∧
        Old σ row)
  | .reread _ input id =>
    EventOk σ catalog request input ∧ ∀ s ∈ db.subscriptions, s.id = id → AtMost σ s
  | .relookup _ input => EventOk σ catalog request input
  | .session input record =>
    Writes σ catalog db input.billingAccountId input.plan record record.updatedAt
  | .readSnapshot _ account plan record timestamp =>
    Writes σ catalog db account plan record timestamp
  | .writeSnapshot _ account plan record timestamp existing =>
    Writes σ catalog db account plan record timestamp ∧ ∀ e, existing = some e →
      e.billingAccountId = account ∧ e.id = s!"ent_{account}" ∧
        isEntitlementFromNewerSubscription e record = false
  | _ => True

/-- The record whose snapshot a call is writing. -/
def writing : Phase → Option BillFnSubscription
  | .session _ record => some record
  | .readSnapshot _ _ _ record _ => some record
  | .writeSnapshot _ _ _ record _ _ => some record
  | _ => none

/-- The projection of the call has been written, or was found to be late. -/
def Applied : Phase → Prop
  | .session _ _ | .readSnapshot .. | .writeSnapshot .. | .recordBillingEvent _ | .finished _ => True
  | _ => False

/-- Everything one move of a call can do. -/
inductive Moved (db : Tables) (free : Prop) (request : Request) (phase : Phase) :
    Tables → Phase → Prop
  | threw (db' : Tables) (error : Thrown) (hrows : db'.subscriptions = db.subscriptions)
      (hsnapshots : db'.entitlementSnapshots = db.entitlementSnapshots) :
      Moved db free request phase db' (.threw error)
  | read (db' : Tables) (phase' : Phase) (hrows : db'.subscriptions = db.subscriptions)
      (hsnapshots : db'.entitlementSnapshots = db.entitlementSnapshots)
      (happlied : isLatest σ request → Applied phase' → Applied phase)
      (hwriting : ∀ record ∈ db.subscriptions, writing phase = some record →
        writing phase' = some record)
      (hinv : PhaseInv σ catalog db' free request phase') : Moved db free request phase db' phase'
  | wrote (db' : Tables) (input : ApplyVerificationStateInput) (record : BillFnSubscription)
      (hwrote : Wrote σ catalog db db' request record)
      (hinv : PhaseInv σ catalog db' free request (.session input record)) :
      Moved db free request phase db' (.session input record)
  | snapped (db' : Tables) (account : String) (plan : BillFnPlanDefinition)
      (record : BillFnSubscription) (existing : Option BillFnEntitlementSnapshot)
      (hwriting : writing phase = some record)
      (hwrites : Writes σ catalog db account plan record record.updatedAt)
      (hnewer : ∀ e, findEntitlementSnapshot db account = some e →
        isEntitlementFromNewerSubscription e record = false)
      (hsnapped : Snapped db db' account
        (projectedSnapshot existing account plan record record.updatedAt)) :
      Moved db free request phase db' (.recordBillingEvent record)

/-- Where an event goes from its context: it fails, it is older than the row, or it is projected. -/
inductive Contextual (event : BillFnParsedWebhookEvent)
    (subscription : Option BillFnSubscription) : Phase → Prop
  | threw (error : Thrown) : Contextual event subscription (.threw error)
  | older (row : BillFnSubscription) (occurredAt : String) (hrow : subscription = some row)
      (hpresent : present event.occurredAt = some occurredAt)
      (holder : isProviderEventOlderThanSubscription parseDate row occurredAt = true) :
      Contextual event subscription (.finished none)
  | project (input : ApplyVerificationStateInput) (hinput : EventInput σ catalog event input)
      (hrow : input.subscription = subscription) :
      Contextual event subscription (applyVerificationState input)

end Phases

section Reads

variable {σ catalog} {db db' : Tables} {free : Prop} {request : Request}

theorem base_of_mem (hdb : Consistent db) {row : BillFnSubscription}
    (hrow : row ∈ db.subscriptions) (hatMost : AtMost σ row) : Base σ db row := by
  refine ⟨held_of_mem hdb hrow, hatMost, fun s hs hid => ?_⟩
  rwa [row_unique hdb hs hrow hid]

theorem mem_of_requirePlan {planKey : String} {plan : BillFnPlanDefinition}
    (h : requirePlan catalog planKey = some plan) : plan ∈ catalog := List.mem_of_find?_eq_some h

theorem mem_of_findSome {α : Type} {f : BillFnPlanDefinition → Option α}
    (pick : α → BillFnPlanDefinition) (hf : ∀ plan a, f plan = some a → pick a = plan) {a : α} (h : catalog.findSome? f = some a) :
    pick a ∈ catalog := by
  obtain ⟨plan, hplan, ha⟩ := List.exists_of_findSome?_eq_some h
  rwa [hf plan a ha]

variable {found : BillFnPlanDefinition × BillFnPriceDefinition}

theorem mem_of_priceReference {provider reference : String}
    (h : findCatalogPriceReference catalog provider reference = some found) :
    found.1 ∈ catalog := by
  refine mem_of_findSome Prod.fst ?_ h
  intro plan a ha
  obtain ⟨price, -, rfl⟩ := Option.map_eq_some_iff.mp ha
  rfl

theorem mem_of_requirePriceReference {reference : String}
    (h : requirePriceReference catalog reference = some found) : found.1 ∈ catalog := by
  refine mem_of_findSome Prod.fst ?_ h
  intro plan a ha
  obtain ⟨price, -, rfl⟩ := Option.map_eq_some_iff.mp ha
  rfl

variable {subscription : Option BillFnSubscription} {state : BillFnVerifiedBillingState}
  {event : BillFnParsedWebhookEvent}

theorem resolve_spec {provider : String}
    {found : Option (BillFnPlanDefinition × BillFnPriceDefinition)}
    (h : resolveProviderEventPriceReference catalog db provider event state subscription =
      .ok found) :
    (∀ pair, found = some pair → pair.1 ∈ catalog) ∧
      ∀ plan price, eventPrice catalog provider event state = some (plan, price) →
        found = some (plan, price) := by
  have hnamed : ∀ pair, eventPrice catalog provider event state = some pair → pair.1 ∈ catalog := by
    intro pair hpair
    unfold eventPrice at hpair
    split at hpair
    · cases hpair
    · obtain ⟨reference, -, hreference⟩ := List.exists_of_findSome?_eq_some hpair
      obtain ⟨text, -, hfound⟩ := Option.bind_eq_some_iff.mp hreference
      exact mem_of_priceReference hfound
  unfold resolveProviderEventPriceReference at h
  dsimp only at h
  cases hprice : eventPrice catalog provider event state with
  | some pair =>
    have hfound := hprice
    rw [eventPrice] at hfound
    rw [hfound] at h
    cases h
    refine ⟨fun other hother => ?_, fun plan price hpair => hpair⟩
    cases hother
    exact hnamed pair hprice
  | none =>
    rw [eventPrice] at hprice
    rw [hprice] at h
    refine ⟨?_, fun plan price hpair => by cases hpair⟩
    intro pair hpair
    subst hpair
    cases subscription with
    | none => cases h
    | some row =>
      dsimp only at h
      split at h
      · split at h
        · cases h
        split at h
        · cases h
        · rename_i hfound
          cases h
          exact mem_of_requirePriceReference hfound
      · cases h

theorem withPrice_cases (catalog : BillFnCatalog) (planKey priceId : String)
    (next : BillFnPlanDefinition → BillFnPriceDefinition → Phase) :
    (∃ error, withPrice catalog planKey priceId next = .threw error) ∨
      ∃ plan ∈ catalog, ∃ price, withPrice catalog planKey priceId next = next plan price := by
  unfold withPrice
  split
  · exact .inl ⟨_, rfl⟩
  · rename_i plan hplan
    split
    · exact .inl ⟨_, rfl⟩
    · exact .inr ⟨plan, mem_of_requirePlan hplan, _, rfl⟩

theorem contextual_project (hstate : event.billingState = some state) (account : String)
    {plan : BillFnPlanDefinition} (hplan : plan ∈ catalog) (price : BillFnPriceDefinition) :
    Contextual σ catalog event subscription
      (match resolveProviderEventPriceReference catalog db σ.provider event state subscription with
      | .error error => .threw error
      | .ok eventPrice => applyVerificationState
          { billingAccountId := account
            plan := (eventPrice.map (·.1)).getD plan
            price := (eventPrice.map (·.2)).getD price
            checkoutSession := findCheckoutSessionByProviderRef db σ.provider
              state.providerSubscriptionId state.providerChargeId event.checkoutReferenceId
            subscription := subscription
            state := state
            occurredAt := event.occurredAt }) := by
  split
  · exact .threw _
  rename_i found hfound
  obtain ⟨hlisted, hnamed⟩ := resolve_spec hfound
  apply Contextual.project
  · refine ⟨hstate, rfl, ?_, ?_⟩
    · cases found with
      | none => exact hplan
      | some pair => exact hlisted pair rfl
    · intro plan' price' hprice
      have hpair := hnamed plan' price' hprice
      subst hpair
      exact ⟨rfl, rfl⟩
  · rfl

theorem eventContext_cases (hstate : event.billingState = some state) :
    Contextual σ catalog event subscription
      (eventContext catalog parseDate db σ.provider event state subscription) := by
  cases subscription with
  | some row =>
    simp only [eventContext]
    split
    · rcases withPrice_cases catalog row.planKey row.priceId _ with
        ⟨error, herror⟩ | ⟨plan, hplan, price, hnext⟩
      · rw [herror]
        exact .threw _
      rw [hnext]
      split
      · rename_i occurredAt hpresent
        split
        · rename_i holder
          exact .older row occurredAt rfl hpresent holder
        · exact contextual_project hstate _ hplan price
      · exact contextual_project hstate _ hplan price
    · exact .threw _
  | none =>
    simp only [eventContext]
    split
    · exact .threw _
    rename_i session _
    split
    · rcases withPrice_cases catalog session.planKey session.priceId _ with
        ⟨error, herror⟩ | ⟨plan, hplan, price, hnext⟩
      · rw [herror]
        exact .threw _
      · rw [hnext]
        exact contextual_project hstate _ hplan price
    · exact .threw _

end Reads

end SuperFunctions.Billfn.EventCalls
