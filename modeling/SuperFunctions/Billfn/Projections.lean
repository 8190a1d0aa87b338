import SuperFunctions.Billfn.Subscriptions
import SuperFunctions.Lib.Processes

/-!
# Projecting provider state, one adapter call at a time

Every way in which provider state reaches the tables ends in `applyVerificationState`: a webhook
event, a sync, the verification of a checkout, a change of a subscription at its provider, a
restored purchase. A call is at one of the phases below, and each of its moves is one adapter call
or one answer of the provider.
-/
namespace SuperFunctions.Billfn.Projections

open Lib.Processes (System Act act)
open Subscriptions

inductive Thrown
  /-- The error of an adapter or provider call, passed on. -/
  | passedOn
  | billFn (code message : String)

structure BillFnParsedWebhookEvent where
  providerEventId : String
  type : String
  occurredAt : Option String
  priceId : Option String
  checkoutReferenceId : Option String
  billingState : Option BillFnVerifiedBillingState
deriving DecidableEq

inductive Request
  | processParsedWebhookEvent (provider : String) (event : BillFnParsedWebhookEvent)
  | syncSubscriptionById (subscriptionId : String)
  | syncSubscription (billingAccountId : String) (subscriptionId : Option String)
  | verifyCheckout (billingAccountId checkoutSessionId : String)
  | cancelSubscription (billingAccountId : String) (subscriptionId : Option String)
  | changeSubscription (billingAccountId : String) (subscriptionId : Option String)
      (targetPriceId : String) (effectiveAt : Option String)
  | resumeSubscription (billingAccountId : String) (subscriptionId : Option String)
  | refundCharge (billingAccountId : String) (subscriptionId providerChargeId : Option String)
  | restorePurchases (billingAccountId provider planKey : String)
      (priceId purchaseReference : Option String)
deriving DecidableEq

/-- A provider call that is under way, with what its caller has read. -/
inductive Asking
  | fetchSubscription (subscription : BillFnSubscription) (plan : BillFnPlanDefinition)
      (price : BillFnPriceDefinition)
  | verifyCheckout (billingAccountId : String) (checkoutSession : BillFnCheckoutSession)
      (plan : BillFnPlanDefinition) (price : BillFnPriceDefinition)
  | cancelSubscription (billingAccountId : String) (subscription : BillFnSubscription)
      (plan : BillFnPlanDefinition) (price : BillFnPriceDefinition)
  | changeSubscription (billingAccountId : String) (subscription : BillFnSubscription)
      (currentPlan : BillFnPlanDefinition) (currentPrice : BillFnPriceDefinition)
      (target : BillFnPlanDefinition × BillFnPriceDefinition) (effectiveAt : String)
  | resumeSubscription (billingAccountId : String) (subscription : BillFnSubscription)
      (plan : BillFnPlanDefinition) (price : BillFnPriceDefinition)
  | refundCharge (billingAccountId : String) (subscription : BillFnSubscription)
  | restorePurchases (billingAccountId provider : String) (plan : BillFnPlanDefinition)
      (price : BillFnPriceDefinition) (purchaseReference : Option String)

/-- What a provider answers; `failed` also stands for a provider that is not configured. -/
inductive Answer
  | failed
  | nothing
  | state (state : BillFnVerifiedBillingState)
  | operation (operationStatus : String) (billingState : Option BillFnVerifiedBillingState)
  | states (states : List BillFnVerifiedBillingState)

inductive Phase
  | entered
  | asking (provider : Asking)
  /-- The subscription of an event was looked up; the rest of its context is read next. -/
  | context (provider : String) (event : BillFnParsedWebhookEvent)
      (state : BillFnVerifiedBillingState) (subscription : Option BillFnSubscription)
  /-- `applyVerificationState` looks for the row to start from. -/
  | lookup (input : ApplyVerificationStateInput)
  | attempt (n : Nat) (input : ApplyVerificationStateInput) (base : Option BillFnSubscription)
  | reread (n : Nat) (input : ApplyVerificationStateInput) (id : String)
  | relookup (n : Nat) (input : ApplyVerificationStateInput)
  | session (input : ApplyVerificationStateInput) (subscription : BillFnSubscription)
  /-- `upsertEntitlements` reads the snapshot of the account, then writes it. -/
  | readSnapshot (n : Nat) (billingAccountId : String) (plan : BillFnPlanDefinition)
      (subscription : BillFnSubscription) (timestamp : Int)
  | writeSnapshot (n : Nat) (billingAccountId : String) (plan : BillFnPlanDefinition)
      (subscription : BillFnSubscription) (timestamp : Int)
      (existing : Option BillFnEntitlementSnapshot)
  | recordBillingEvent (subscription : BillFnSubscription)
  /-- With the subscription that was projected; `none` when nothing was. -/
  | finished (subscription : Option BillFnSubscription)
  | threw (error : Thrown)

structure Call where
  request : Request
  phase : Phase

/-- What the surroundings contribute to a move: the clock, a fresh id, whether the adapter throws,
and the answer of the provider. -/
structure Choice where
  now : Int
  generatedId : String
  fails : Bool
  answer : Answer

section Entry

variable (catalog : BillFnCatalog)

def withPrice (planKey priceId : String)
    (next : BillFnPlanDefinition → BillFnPriceDefinition → Phase) : Phase :=
  match requirePlan catalog planKey with
  | none => .threw (.billFn "BILLFN_NOT_FOUND" s!"Plan not found: {planKey}")
  | some plan =>
    match requirePriceById plan priceId with
    | none => .threw (.billFn "BILLFN_CATALOG_PRICE_NOT_FOUND"
        s!"No configured price found for {priceId}")
    | some price => next plan price

def getOrCreateBillingAccount (db : Tables) (billingAccountId : String) : Tables :=
  if billingAccountId ∈ db.billingAccounts then db
  else { db with billingAccounts := db.billingAccounts ++ [billingAccountId] }

def subscriptionNotFound : Phase :=
  .threw (.billFn "BILLFN_NOT_FOUND" "Subscription not found")

/-- What `syncSubscriptionById` reads before it asks the provider. -/
def syncSubscriptionById (db : Tables) (subscriptionId : String) : Phase :=
  match getSubscriptionById db subscriptionId with
  | none => subscriptionNotFound
  | some subscription =>
    if subscription.billingAccountId ∈ db.billingAccounts then
      withPrice catalog subscription.planKey subscription.priceId fun plan price =>
        .asking (.fetchSubscription subscription plan price)
    else .threw (.billFn "BILLFN_NOT_FOUND" "Billing account not found")

/-- The subscription a request is about, with the plan and price it is on. -/
def withSubscription (db : Tables) (billingAccountId : String) (subscriptionId : Option String)
    (next : BillFnSubscription → BillFnPlanDefinition → BillFnPriceDefinition → Phase) : Phase :=
  match getSubscriptionForAccount db billingAccountId subscriptionId with
  | none => subscriptionNotFound
  | some subscription =>
    withPrice catalog subscription.planKey subscription.priceId (next subscription)

def verifyCheckout (db : Tables) (billingAccountId checkoutSessionId : String) : Tables × Phase :=
  match getCheckoutSession db checkoutSessionId with
  | none => (db, .threw (.billFn "BILLFN_NOT_FOUND" "Checkout session not found"))
  | some session =>
    (getOrCreateBillingAccount db billingAccountId,
      if billingAccountId ≠ session.billingAccountId then
        .threw (.billFn "BILLFN_CONFLICT"
          "Checkout session does not belong to the resolved billing account")
      else withPrice catalog session.planKey session.priceId fun plan price =>
        .asking (.verifyCheckout billingAccountId session plan price))

def changeSubscription (db : Tables) (billingAccountId : String) (subscriptionId : Option String)
    (targetPriceId : String) (effectiveAt : Option String) : Phase :=
  withSubscription catalog db billingAccountId subscriptionId fun subscription plan price =>
    match requirePriceReference catalog targetPriceId with
    | none => .threw (.billFn "BILLFN_CATALOG_PRICE_NOT_FOUND"
        s!"No configured price found for {targetPriceId}")
    | some target =>
      if target.2.provider ≠ subscription.provider then
        .threw (.billFn "BILLFN_VALIDATION_ERROR"
          "Target price provider must match the active subscription provider")
      else .asking (.changeSubscription billingAccountId subscription plan price target
        (effectiveAt.getD "immediate"))

def refundCharge (db : Tables) (billingAccountId : String)
    (subscriptionId providerChargeId : Option String) : Phase :=
  match getSubscriptionForAccount db billingAccountId subscriptionId with
  | none => .threw (.billFn "BILLFN_NOT_FOUND" "Subscription not found for refund")
  | some subscription =>
    if (present providerChargeId).isSome ∧ providerChargeId ≠ subscription.providerChargeId then
      .threw (.billFn "BILLFN_CONFLICT"
        "Refund charge does not belong to the resolved subscription")
    else .asking (.refundCharge billingAccountId subscription)

/-- The price a restore is made for; `none` when the provider's prices leave it open. -/
def restorePrice (db : Tables) (plan : BillFnPlanDefinition) (provider : String)
    (priceId purchaseReference : Option String) :
    Except Thrown (Option BillFnPriceDefinition) :=
  let required := fun id => match requirePriceById plan id with
    | none => .error (.billFn "BILLFN_CATALOG_PRICE_NOT_FOUND"
        s!"No configured price found for {id}")
    | some price => .ok (some price)
  match present priceId with
  | some id => required id
  | none =>
    match findCheckoutSessionByProviderRef db provider none none purchaseReference with
    | some session => required session.priceId
    | none =>
      match plan.prices.filter (·.provider = provider) with
      | [price] => .ok (some price)
      | _ => .ok none

def restorePurchases (db : Tables) (billingAccountId provider planKey : String)
    (priceId purchaseReference : Option String) : Phase :=
  let ambiguous : Phase := .threw (.billFn "BILLFN_VALIDATION_ERROR"
    "Restore purchases requires a priceId when the provider has multiple matching prices")
  match requirePlan catalog planKey with
  | none => .threw (.billFn "BILLFN_NOT_FOUND" s!"Plan not found: {planKey}")
  | some plan =>
    match restorePrice db plan provider priceId purchaseReference with
    | .error error => .threw error
    | .ok none => ambiguous
    | .ok (some price) =>
      if price.provider = provider then
        .asking (.restorePurchases billingAccountId provider plan price purchaseReference)
      else ambiguous

/-- The reads of a request up to the provider call or the lookup of an event's subscription. -/
def enter (db : Tables) : Request → Tables × Phase
  | .processParsedWebhookEvent provider event =>
    match event.billingState with
    | none => (db, .finished none)
    | some state => (db, .context provider event state (findSubscriptionByProviderRef db provider
        state.providerSubscriptionId state.providerChargeId event.checkoutReferenceId))
  | .syncSubscriptionById id => (db, syncSubscriptionById catalog db id)
  | .syncSubscription account id =>
    (getOrCreateBillingAccount db account,
      match getSubscriptionForAccount db account id with
      | none => subscriptionNotFound
      | some subscription =>
        syncSubscriptionById catalog (getOrCreateBillingAccount db account) subscription.id)
  | .verifyCheckout account session => verifyCheckout catalog db account session
  | .cancelSubscription account id =>
    (getOrCreateBillingAccount db account,
      withSubscription catalog db account id fun subscription plan price =>
        .asking (.cancelSubscription account subscription plan price))
  | .changeSubscription account id target effectiveAt =>
    (getOrCreateBillingAccount db account,
      changeSubscription catalog db account id target effectiveAt)
  | .resumeSubscription account id =>
    (getOrCreateBillingAccount db account,
      withSubscription catalog db account id fun subscription plan price =>
        .asking (.resumeSubscription account subscription plan price))
  | .refundCharge account id charge =>
    (getOrCreateBillingAccount db account, refundCharge db account id charge)
  | .restorePurchases account provider planKey priceId reference =>
    (getOrCreateBillingAccount db account,
      restorePurchases catalog db account provider planKey priceId reference)

def includes (text part : String) : Bool :=
  text.toList.tails.any fun rest => part.toList.isPrefixOf rest

/-- The price an event names, or the one a scheduled change has made due. -/
def resolveProviderEventPriceReference (db : Tables) (provider : String)
    (event : BillFnParsedWebhookEvent) (state : BillFnVerifiedBillingState)
    (subscription : Option BillFnSubscription) :
    Except Thrown (Option (BillFnPlanDefinition × BillFnPriceDefinition)) :=
  let normalizedType := event.type.toLower
  let raw := state.raw.getD []
  let references := [present event.priceId, readString raw "product_id", readString raw "productId",
    readString raw "price_id", readString raw "priceId"]
  let named := if includes normalizedType "change_renewal_pref" then none
    else references.findSome? fun reference =>
      reference.bind (findCatalogPriceReference catalog provider)
  match named, subscription with
  | some found, _ => .ok (some found)
  | none, none => .ok none
  | none, some subscription =>
    if includes normalizedType "renew" ∨ includes normalizedType "plan_changed" then
      let changeRequests := db.subscriptionChangeRequests.filter fun r =>
        r.subscriptionId = subscription.id ∧ r.effectiveAt = "next_renewal" ∧ r.status = "applied"
      match latestBy (·.updatedAt) changeRequests with
      | none => .ok none
      | some latest =>
        match requirePriceReference catalog latest.targetPriceId with
        | none => .error (.billFn "BILLFN_CATALOG_PRICE_NOT_FOUND"
            s!"No configured price found for {latest.targetPriceId}")
        | some found => .ok (some found)
    else .ok none

end Entry

section Projection

variable (catalog : BillFnCatalog) (parseDate : String → Option Int)

/-- `applyVerificationState` starts from the row it was given, or looks for one. -/
def applyVerificationState (input : ApplyVerificationStateInput) : Phase :=
  match input.subscription with
  | some subscription => .attempt 0 input (some subscription)
  | none => .lookup input

def notLinked (event : BillFnParsedWebhookEvent) : Phase :=
  .threw (.billFn "BILLFN_NOT_FOUND"
    s!"Webhook event could not be linked to a billing account: {event.providerEventId}")

/-- The account, session, plan and price of an event, once its subscription was looked up. -/
def eventContext (db : Tables) (provider : String) (event : BillFnParsedWebhookEvent)
    (state : BillFnVerifiedBillingState) (subscription : Option BillFnSubscription) : Phase :=
  let session := findCheckoutSessionByProviderRef db provider state.providerSubscriptionId
    state.providerChargeId event.checkoutReferenceId
  let project := fun account plan price =>
    match resolveProviderEventPriceReference catalog db provider event state subscription with
    | .error error => .threw error
    | .ok eventPrice => applyVerificationState
        { billingAccountId := account
          plan := (eventPrice.map (·.1)).getD plan
          price := (eventPrice.map (·.2)).getD price
          checkoutSession := session
          subscription := subscription
          state := state
          occurredAt := event.occurredAt }
  match subscription with
  | some s =>
    if s.billingAccountId ∈ db.billingAccounts then
      withPrice catalog s.planKey s.priceId fun plan price =>
        match present event.occurredAt with
        | some occurredAt =>
          if isProviderEventOlderThanSubscription parseDate s occurredAt then .finished none
          else project s.billingAccountId plan price
        | none => project s.billingAccountId plan price
    else notLinked event
  | none =>
    match session with
    | none => notLinked event
    | some session =>
      if session.billingAccountId ∈ db.billingAccounts then
        withPrice catalog session.planKey session.priceId fun plan price =>
          project session.billingAccountId plan price
      else notLinked event

/-- An operation without a new state only makes sure that the account has a snapshot. -/
def ensureSnapshot (db : Tables) (billingAccountId : String) (plan : BillFnPlanDefinition)
    (subscription : BillFnSubscription) (now : Int) : Phase :=
  if (findEntitlementSnapshot db billingAccountId).isSome then .recordBillingEvent subscription
  else .readSnapshot 0 billingAccountId plan subscription now

/-- The purchase of a restore that can be linked to the account, in the order of the provider. -/
def restoredPurchase (db : Tables) (billingAccountId provider : String)
    (plan : BillFnPlanDefinition) (price : BillFnPriceDefinition)
    (purchaseReference : Option String) : List BillFnVerifiedBillingState → Phase
  | [] => .threw (.billFn "BILLFN_CONFLICT"
      "No restored purchase could be linked to the resolved billing account")
  | state :: states =>
    let subscription := findSubscriptionByProviderRef db provider state.providerSubscriptionId
      state.providerChargeId purchaseReference
    let session := findCheckoutSessionByProviderRef db provider state.providerSubscriptionId
      state.providerChargeId purchaseReference
    let fresh := applyVerificationState ⟨billingAccountId, plan, price, none, none, state, none⟩
    match subscription with
    | some s =>
      if s.billingAccountId ∈ db.billingAccounts then
        withPrice catalog s.planKey s.priceId fun plan' price' =>
          if s.billingAccountId = billingAccountId then
            applyVerificationState ⟨billingAccountId, plan', price', session, some s, state, none⟩
          else restoredPurchase db billingAccountId provider plan price purchaseReference states
      else fresh
    | none =>
      match session with
      | none => fresh
      | some c =>
        if c.billingAccountId ∈ db.billingAccounts then
          withPrice catalog c.planKey c.priceId fun plan' price' =>
            if c.billingAccountId = billingAccountId then
              applyVerificationState ⟨billingAccountId, plan', price', some c, none, state, none⟩
            else restoredPurchase db billingAccountId provider plan price purchaseReference states
        else fresh

/-- The state a cancellation is given when its provider says nothing. -/
def canceledState (subscription : BillFnSubscription) : BillFnVerifiedBillingState where
  subscriptionStatus := .canceled
  checkoutStatus := "succeeded"
  providerSubscriptionId := subscription.providerSubscriptionId
  providerChargeId := subscription.providerChargeId
  currentPeriodStart := subscription.currentPeriodStart
  currentPeriodEnd := subscription.currentPeriodEnd
  autoRenew := some false
  raw := none

/-- What follows on an operation at the provider. -/
def operated (db : Tables) (billingAccountId : String) (subscription : BillFnSubscription)
    (plan : BillFnPlanDefinition) (price : BillFnPriceDefinition)
    (billingState : Option BillFnVerifiedBillingState) (now : Int) : Phase :=
  match billingState with
  | some state =>
    applyVerificationState ⟨billingAccountId, plan, price, none, some subscription, state, none⟩
  | none => ensureSnapshot db billingAccountId plan subscription now

/-- The provider has answered. -/
def answered (db : Tables) (choice : Choice) : Asking → Tables × Phase
  | .fetchSubscription subscription plan price =>
    match choice.answer with
    | .state state => (db, applyVerificationState
        ⟨subscription.billingAccountId, plan, price, none, some subscription, state, none⟩)
    | .nothing => (db, .threw (.billFn "BILLFN_NOT_FOUND"
        "Provider did not return subscription state"))
    | _ => (db, .threw .passedOn)
  | .verifyCheckout account session plan price =>
    match choice.answer with
    | .state state =>
      (db, applyVerificationState ⟨account, plan, price, some session, none, state, none⟩)
    | _ => (db, .threw .passedOn)
  | .cancelSubscription account subscription plan price =>
    match choice.answer with
    | .nothing => (db, operated db account subscription plan price
        (some (canceledState subscription)) choice.now)
    | .operation _ state => (db, operated db account subscription plan price state choice.now)
    | _ => (db, .threw .passedOn)
  | .changeSubscription account subscription plan price target effectiveAt =>
    match choice.answer with
    | .operation operationStatus state =>
      let changed := { db with subscriptionChangeRequests := db.subscriptionChangeRequests ++
        [⟨subscription.id, target.2.priceId, effectiveAt,
          if operationStatus = "applied" then "applied" else "requires_action", choice.now⟩] }
      let applied := operationStatus = "applied" ∧ effectiveAt = "immediate"
      (changed,
        match state with
        | some state => applyVerificationState ⟨account, if applied then target.1 else plan,
            if applied then target.2 else price, none, some subscription, state, none⟩
        | none => ensureSnapshot changed account plan subscription choice.now)
    | _ => (db, .threw .passedOn)
  | .resumeSubscription account subscription plan price =>
    match choice.answer with
    | .operation _ state => (db, operated db account subscription plan price state choice.now)
    | _ => (db, .threw .passedOn)
  | .refundCharge account subscription =>
    match choice.answer with
    | .operation _ state =>
      (db, withPrice catalog subscription.planKey subscription.priceId fun plan price =>
        match state with
        | some state => applyVerificationState
            ⟨account, plan, price, none, some subscription, state, none⟩
        | none => .recordBillingEvent subscription)
    | _ => (db, .threw .passedOn)
  | .restorePurchases account provider plan price reference =>
    match choice.answer with
    | .states [] => (db, .threw (.billFn "BILLFN_NOT_FOUND" "No purchases were restored"))
    | .states states =>
      (db, restoredPurchase catalog db account provider plan price reference states)
    | _ => (db, .threw .passedOn)

/-- The write of one round of the retry loop. -/
def writeProjection (db : Tables) (choice : Choice) (n : Nat) (input : ApplyVerificationStateInput)
    (base : Option BillFnSubscription) : Tables × Phase :=
  let record := projectedSubscription base input choice.now choice.generatedId
  match base with
  | some row =>
    if (present input.occurredAt).isSome then
      match writeSubscription db record fun s => s.id = row.id ∧ s.updatedAt = row.updatedAt with
      | none => (db, .threw .passedOn)
      | some (written, affected) =>
        if affected = 1 then (written, .session input record)
        else (written, .reread n input row.id)
    else
      match writeSubscription db record fun s => s.id = row.id with
      | none => (db, .threw .passedOn)
      | some (written, affected) =>
        if affected = 0 then (db, .threw .passedOn) else (written, .session input record)
  | none =>
    match createSubscription db record with
    | some created => (created, .session input record)
    | none => (db, .relookup n input)

/-- One round of the retry loop of `applyVerificationState`. -/
def attempt (db : Tables) (choice : Choice) (n : Nat) (input : ApplyVerificationStateInput)
    (base : Option BillFnSubscription) : Tables × Phase :=
  if 50 ≤ n then (db, .threw (.billFn "BILLFN_CONFLICT"
    "Unable to apply provider event state after multiple retries"))
  else if base.any fun row => row.billingAccountId ≠ input.billingAccountId then
    (db, .threw (.billFn "BILLFN_CONFLICT"
      "Provider billing reference belongs to a different billing account"))
  else if base.any fun row => (present input.occurredAt).any fun occurredAt =>
      isProviderEventOlderThanSubscription parseDate row occurredAt then (db, .finished none)
  else if choice.fails then (db, .threw .passedOn)
  else writeProjection db choice n input base

def updateCheckoutSession (db : Tables) (input : ApplyVerificationStateInput)
    (session : BillFnCheckoutSession) (timestamp : Int) : Tables :=
  { db with checkoutSessions := db.checkoutSessions.map fun s =>
      if s.checkoutSessionId = session.checkoutSessionId then
        { s with
          status := input.state.checkoutStatus
          providerSubscriptionId :=
            input.state.providerSubscriptionId.or session.providerSubscriptionId
          providerChargeId := input.state.providerChargeId.or session.providerChargeId
          metadata := mergeJson session.metadata input.state.raw
          updatedAt := timestamp }
      else s }

/-- The write of one round of `upsertEntitlements`. -/
def upsertEntitlements (db : Tables) (n : Nat) (billingAccountId : String)
    (plan : BillFnPlanDefinition) (subscription : BillFnSubscription) (timestamp : Int)
    (existing : Option BillFnEntitlementSnapshot) : Tables × Phase :=
  let snapshot := projectedSnapshot existing billingAccountId plan subscription timestamp
  match existing with
  | some row =>
    let updated := updateSnapshots db row snapshot
    if updated.2 = 1 then (updated.1, .recordBillingEvent subscription)
    else (updated.1, .readSnapshot (n + 1) billingAccountId plan subscription timestamp)
  | none =>
    match createSnapshot db snapshot with
    | some created => (created, .recordBillingEvent subscription)
    | none => (db, .readSnapshot (n + 1) billingAccountId plan subscription timestamp)

/-- The next adapter call, or the next answer of a provider. -/
def advance (db : Tables) (choice : Choice) (request : Request) : Phase → Option (Tables × Phase)
  | .entered => if choice.fails then some (db, .threw .passedOn) else some (enter catalog db request)
  | .asking provider => some (answered catalog db choice provider)
  | .context provider event state subscription =>
    if choice.fails then some (db, .threw .passedOn)
    else some (db, eventContext catalog parseDate db provider event state subscription)
  | .lookup input =>
    if choice.fails then some (db, .threw .passedOn)
    else some (db, .attempt 0 input (findSubscriptionByProviderRef db input.price.provider
      input.state.providerSubscriptionId input.state.providerChargeId
      (input.checkoutSession.map (·.checkoutSessionId))))
  | .attempt n input base => some (attempt parseDate db choice n input base)
  | .reread n input id =>
    if choice.fails then some (db, .threw .passedOn)
    else match getSubscriptionById db id with
      | none => some (db, .threw (.billFn "BILLFN_CONFLICT"
          "Subscription changed while applying provider event state"))
      | some current => some (db, .attempt (n + 1) input (some current))
  | .relookup n input =>
    if choice.fails then some (db, .threw .passedOn)
    else match findSubscriptionByProviderRef db input.price.provider
        input.state.providerSubscriptionId input.state.providerChargeId
        (input.checkoutSession.map (·.checkoutSessionId)) with
      | none => some (db, .threw .passedOn)
      | some duplicate => some (db, .attempt (n + 1) input (some duplicate))
  | .session input subscription =>
    if choice.fails then some (db, .threw .passedOn)
    else some ((input.checkoutSession.map fun session =>
        updateCheckoutSession db input session subscription.updatedAt).getD db,
      .readSnapshot 0 input.billingAccountId input.plan subscription subscription.updatedAt)
  | .readSnapshot n account plan subscription timestamp =>
    if 50 ≤ n then some (db, .threw (.billFn "BILLFN_CONFLICT"
      "Unable to update entitlements after multiple retries"))
    else if choice.fails then some (db, .threw .passedOn)
    else
      let existing := findEntitlementSnapshot db account
      if existing.any fun snapshot => isEntitlementFromNewerSubscription snapshot subscription then
        some (db, .recordBillingEvent subscription)
      else some (db, .writeSnapshot n account plan subscription timestamp existing)
  | .writeSnapshot n account plan subscription timestamp existing =>
    if choice.fails then some (db, .threw .passedOn)
    else some (upsertEntitlements db n account plan subscription timestamp existing)
  | .recordBillingEvent subscription =>
    if choice.fails then some (db, .threw .passedOn) else some (db, .finished (some subscription))
  | .finished _ => none
  | .threw _ => none

def step (db : Tables) (_ : Nat) (call : Call) (choice : Choice) : Option (Tables × Call) :=
  (advance catalog parseDate db choice call.request call.phase).map fun r =>
    (r.1, { call with phase := r.2 })

def newCall (request : Request) : Call := ⟨request, .entered⟩

abbrev Deployment := System Tables Call

def deploymentStep : Deployment → Act Request Choice → Option Deployment :=
  act newCall (step catalog parseDate)

end Projection

end SuperFunctions.Billfn.Projections
