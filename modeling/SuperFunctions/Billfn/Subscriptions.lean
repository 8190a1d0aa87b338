import Mathlib.Tactic.Common

/-!
# Subscriptions and the entitlements derived from them

The rows that provider state is projected onto, and the pure parts of the projection: how a time
stamp of a provider is read, which row a provider reference names, what a subscription row becomes
under a provider state and what the entitlement snapshot of its account then says.

Instants are milliseconds; the text of an `updatedAt` and the instant it names are one thing here.
-/
namespace SuperFunctions.Billfn.Subscriptions

inductive SubscriptionStatus
  | pending | trialing | active | grace | past_due | canceled | expired | paused | failed
deriving DecidableEq

inductive EntitlementStatus
  | trialing | active | grace | inactive
deriving DecidableEq

inductive MetaValue
  | text (s : String)
  | other (json : String)
deriving DecidableEq

/-- A JSON object; of several members under one key the first counts. -/
abbrev Metadata := List (String × MetaValue)

structure BillFnPriceDefinition where
  priceId : String
  provider : String
  providerProductId : String
deriving DecidableEq

structure BillFnPlanDefinition where
  planKey : String
  features : List (String × Bool)
  limits : List (String × Int)
  prices : List BillFnPriceDefinition
deriving DecidableEq

abbrev BillFnCatalog := List BillFnPlanDefinition

structure BillFnSubscription where
  id : String
  billingAccountId : String
  planKey : String
  priceId : String
  provider : String
  providerSubscriptionId : Option String
  providerCheckoutId : Option String
  providerChargeId : Option String
  status : SubscriptionStatus
  currentPeriodStart : Option String
  currentPeriodEnd : Option String
  autoRenew : Bool
  metadata : Option Metadata
  createdAt : Int
  updatedAt : Int
  cancelAt : Option String
  canceledAt : Option Int
  trialEnd : Option String
deriving DecidableEq

structure BillFnCheckoutSession where
  checkoutSessionId : String
  billingAccountId : String
  planKey : String
  priceId : String
  provider : String
  providerCheckoutId : Option String
  providerSubscriptionId : Option String
  providerChargeId : Option String
  status : String
  metadata : Option Metadata
  updatedAt : Int

structure BillFnEntitlementSnapshot where
  id : String
  billingAccountId : String
  planKey : String
  status : EntitlementStatus
  features : List (String × Bool)
  limits : List (String × Int)
  effectiveAt : Int
  expiresAt : Option String
  /-- The two parts of the text `id@updatedAt`. -/
  sourceEventId : Option (String × Int)
  createdAt : Int
  updatedAt : Int
deriving DecidableEq

structure BillFnSubscriptionChangeRequest where
  subscriptionId : String
  targetPriceId : String
  effectiveAt : String
  status : String
  updatedAt : Int

/-- What a provider says about a purchase. -/
structure BillFnVerifiedBillingState where
  subscriptionStatus : SubscriptionStatus
  checkoutStatus : String
  providerSubscriptionId : Option String
  providerChargeId : Option String
  currentPeriodStart : Option String
  currentPeriodEnd : Option String
  autoRenew : Option Bool
  raw : Option Metadata
deriving DecidableEq

structure Tables where
  billingAccounts : List String
  subscriptions : List BillFnSubscription
  checkoutSessions : List BillFnCheckoutSession
  entitlementSnapshots : List BillFnEntitlementSnapshot
  subscriptionChangeRequests : List BillFnSubscriptionChangeRequest

/-- A text that is absent or empty does not count. -/
def present (text : Option String) : Option String := text.filter (· ≠ "")

def readString (record : Metadata) (key : String) : Option String :=
  match record.lookup key with
  | some (.text s) => if s = "" then none else some s
  | _ => none

def mergeJson (existing incoming : Option Metadata) : Option Metadata :=
  match existing, incoming with
  | none, none => none
  | _, _ => some (incoming.getD [] ++ existing.getD [])

section Times

-- `Date.parse` of the runtime.
variable (parseDate : String → Option Int)

def digitsValue (digits : List Char) : Nat :=
  digits.foldl (fun n c => 10 * n + (c.toNat - '0'.toNat)) 0

def parseProviderEventTime (value : String) : Option Int :=
  if value.toList ≠ [] ∧ value.toList.all Char.isDigit then
    if digitsValue value.toList < 1000000000000 then some (digitsValue value.toList * 1000 : Nat)
    else some (digitsValue value.toList : Nat)
  else parseDate value

def PROVIDER_EVENT_OCCURRED_AT_METADATA_KEY : String := "billfnProviderEventOccurredAt"

def lastOccurredAt (subscription : BillFnSubscription) : Option String :=
  subscription.metadata.bind fun m => readString m PROVIDER_EVENT_OCCURRED_AT_METADATA_KEY

def isProviderEventOlderThanSubscription (subscription : BillFnSubscription)
    (occurredAt : String) : Bool :=
  match lastOccurredAt subscription with
  | none => false
  | some last =>
    match parseProviderEventTime parseDate occurredAt, parseProviderEventTime parseDate last with
    | some incomingTime, some currentTime => incomingTime < currentTime
    | _, _ => false

end Times

def nextSubscriptionUpdatedAt (now : Int) (previous : Option Int) : Int :=
  match previous with
  | some previousTime => if now ≤ previousTime then previousTime + 1 else now
  | none => now

theorem nextSubscriptionUpdatedAt_gt (now previous : Int) :
    previous < nextSubscriptionUpdatedAt now (some previous) := by
  simp only [nextSubscriptionUpdatedAt]
  split <;> omega

def mapSubscriptionToEntitlementStatus : SubscriptionStatus → EntitlementStatus
  | .trialing => .trialing
  | .active => .active
  | .grace => .grace
  | .past_due => .grace
  | _ => .inactive

def buildEntitlementSourceEventId (subscription : BillFnSubscription) : String × Int :=
  (subscription.id, subscription.updatedAt)

def isEntitlementFromNewerSubscription (snapshot : BillFnEntitlementSnapshot)
    (subscription : BillFnSubscription) : Bool :=
  match snapshot.sourceEventId with
  | some (id, time) => id = subscription.id ∧ subscription.updatedAt < time
  | none => false

section Catalog

variable (catalog : BillFnCatalog)

def requirePlan (planKey : String) : Option BillFnPlanDefinition :=
  catalog.find? (·.planKey = planKey)

def requirePriceById (plan : BillFnPlanDefinition) (priceId : String) :
    Option BillFnPriceDefinition :=
  plan.prices.find? (·.priceId = priceId)

def requirePriceReference (priceId : String) :
    Option (BillFnPlanDefinition × BillFnPriceDefinition) :=
  catalog.findSome? fun plan =>
    (plan.prices.find? (·.priceId = priceId)).map fun price => (plan, price)

def findCatalogPriceReference (provider reference : String) :
    Option (BillFnPlanDefinition × BillFnPriceDefinition) :=
  catalog.findSome? fun plan =>
    (plan.prices.find? fun candidate => candidate.provider = provider ∧
      (candidate.priceId = reference ∨ candidate.providerProductId = reference)).map
        fun price => (plan, price)

end Catalog

/-- The first of the rows with the latest `updatedAt`. -/
def latestBy {α : Type} (updatedAt : α → Int) : List α → Option α
  | [] => none
  | x :: xs =>
    match latestBy updatedAt xs with
    | none => some x
    | some y => if updatedAt x < updatedAt y then some y else some x

section Rows

variable (db : Tables)

def getSubscriptionById (id : String) : Option BillFnSubscription :=
  db.subscriptions.find? (·.id = id)

def countsAsActive (status : SubscriptionStatus) : Bool :=
  status ∈ [.trialing, .active, .grace, .past_due, .pending, .paused]

def findActiveSubscription (billingAccountId : String) : Option BillFnSubscription :=
  latestBy (·.updatedAt) (db.subscriptions.filter fun s =>
    s.billingAccountId = billingAccountId ∧ countsAsActive s.status)

def getSubscriptionForAccount (billingAccountId : String) (subscriptionId : Option String) :
    Option BillFnSubscription :=
  match present subscriptionId with
  | some id => db.subscriptions.find? fun s => s.id = id ∧ s.billingAccountId = billingAccountId
  | none => findActiveSubscription db billingAccountId

def getCheckoutSession (checkoutSessionId : String) : Option BillFnCheckoutSession :=
  db.checkoutSessions.find? (·.checkoutSessionId = checkoutSessionId)

def findSubscriptionByProviderRef (provider : String)
    (providerSubscriptionId providerChargeId checkoutReferenceId : Option String) :
    Option BillFnSubscription :=
  let bySubscription := fun ref => db.subscriptions.find? fun s =>
    s.provider = provider ∧ s.providerSubscriptionId = some ref
  let byCharge := fun ref => db.subscriptions.find? fun s =>
    s.provider = provider ∧ s.providerChargeId = some ref
  ((present providerSubscriptionId).bind bySubscription).or
    (((present providerChargeId).bind byCharge).or
      ((present checkoutReferenceId).bind fun ref =>
        (getCheckoutSession db ref).bind fun session =>
          (present session.providerSubscriptionId).bind bySubscription))

def findCheckoutSessionByProviderRef (provider : String)
    (providerSubscriptionId providerChargeId checkoutReferenceId : Option String) :
    Option BillFnCheckoutSession :=
  ((present checkoutReferenceId).bind fun ref =>
      (getCheckoutSession db ref).or
        (db.checkoutSessions.find? fun s =>
          s.provider = provider ∧ s.providerCheckoutId = some ref)).or
    (((present providerSubscriptionId).bind fun ref => db.checkoutSessions.find? fun s =>
        s.provider = provider ∧ s.providerSubscriptionId = some ref).or
      ((present providerChargeId).bind fun ref => db.checkoutSessions.find? fun s =>
        s.provider = provider ∧ s.providerChargeId = some ref))

def findEntitlementSnapshot (billingAccountId : String) : Option BillFnEntitlementSnapshot :=
  db.entitlementSnapshots.find? (·.billingAccountId = billingAccountId)

/-- Whether two rows break one of the unique indexes of the table. -/
def clash (a b : BillFnSubscription) : Bool :=
  a.id = b.id ∨ (a.provider = b.provider ∧
    ((a.providerSubscriptionId.isSome ∧ a.providerSubscriptionId = b.providerSubscriptionId) ∨
      (a.providerChargeId.isSome ∧ a.providerChargeId = b.providerChargeId)))

/-- `create`; `none` is a duplicate key. -/
def createSubscription (record : BillFnSubscription) : Option Tables :=
  if db.subscriptions.any (clash record) then none
  else some { db with subscriptions := db.subscriptions ++ [record] }

/-- Writing over a row; `none` when the new row would break a unique index. -/
def writeSubscription (record : BillFnSubscription) (test : BillFnSubscription → Bool) :
    Option (Tables × Nat) :=
  if db.subscriptions.any fun s => s.id ≠ record.id ∧ clash record s then none
  else some ({ db with
      subscriptions := db.subscriptions.map fun s => if test s then record else s },
    db.subscriptions.countP test)

def createSnapshot (snapshot : BillFnEntitlementSnapshot) : Option Tables :=
  if db.entitlementSnapshots.any fun s =>
      s.id = snapshot.id ∨ s.billingAccountId = snapshot.billingAccountId then none
  else some { db with entitlementSnapshots := db.entitlementSnapshots ++ [snapshot] }

/-- The row test of the compare-and-set on a snapshot. -/
def unchangedSnapshot (existing s : BillFnEntitlementSnapshot) : Bool :=
  s.billingAccountId = existing.billingAccountId ∧
    if existing.sourceEventId.isSome then s.sourceEventId = existing.sourceEventId
    else s.updatedAt = existing.updatedAt

def updateSnapshots (existing snapshot : BillFnEntitlementSnapshot) : Tables × Nat :=
  ({ db with
      entitlementSnapshots := db.entitlementSnapshots.map fun s =>
        if unchangedSnapshot existing s then snapshot else s },
    db.entitlementSnapshots.countP (unchangedSnapshot existing))

end Rows

/-- What `applyVerificationState` is called with. -/
structure ApplyVerificationStateInput where
  billingAccountId : String
  plan : BillFnPlanDefinition
  price : BillFnPriceDefinition
  checkoutSession : Option BillFnCheckoutSession
  subscription : Option BillFnSubscription
  state : BillFnVerifiedBillingState
  occurredAt : Option String

/-- The metadata a projection leaves on the row. -/
def projectedMetadata (base : Option BillFnSubscription) (input : ApplyVerificationStateInput) :
    Option Metadata :=
  let mergedMetadata := mergeJson (base.bind (·.metadata)) input.state.raw
  match present input.occurredAt with
  | some occurredAt =>
    some ((PROVIDER_EVENT_OCCURRED_AT_METADATA_KEY, .text occurredAt) :: mergedMetadata.getD [])
  | none => mergedMetadata

/-- The row a projection writes. -/
def projectedSubscription (base : Option BillFnSubscription)
    (input : ApplyVerificationStateInput) (now : Int) (newId : String) : BillFnSubscription :=
  let timestamp := nextSubscriptionUpdatedAt now (base.map (·.updatedAt))
  { id := (base.map (·.id)).getD newId
    billingAccountId := input.billingAccountId
    planKey := input.plan.planKey
    priceId := input.price.priceId
    provider := input.price.provider
    providerSubscriptionId :=
      input.state.providerSubscriptionId.or (base.bind (·.providerSubscriptionId))
    providerCheckoutId :=
      (input.checkoutSession.bind (·.providerCheckoutId)).or (base.bind (·.providerCheckoutId))
    providerChargeId := input.state.providerChargeId.or (base.bind (·.providerChargeId))
    status := input.state.subscriptionStatus
    currentPeriodStart := input.state.currentPeriodStart.or (base.bind (·.currentPeriodStart))
    currentPeriodEnd := input.state.currentPeriodEnd.or (base.bind (·.currentPeriodEnd))
    autoRenew := (input.state.autoRenew.or (base.map (·.autoRenew))).getD false
    metadata := projectedMetadata base input
    createdAt := (base.map (·.createdAt)).getD timestamp
    updatedAt := timestamp
    cancelAt := base.bind (·.cancelAt)
    canceledAt :=
      if input.state.subscriptionStatus = .canceled then some timestamp
      else base.bind (·.canceledAt)
    trialEnd := base.bind (·.trialEnd) }

/-- The snapshot `upsertEntitlements` writes. -/
def projectedSnapshot (existing : Option BillFnEntitlementSnapshot) (billingAccountId : String)
    (plan : BillFnPlanDefinition) (subscription : BillFnSubscription) (timestamp : Int) :
    BillFnEntitlementSnapshot where
  id := (existing.map (·.id)).getD s!"ent_{billingAccountId}"
  billingAccountId := billingAccountId
  planKey := plan.planKey
  status := mapSubscriptionToEntitlementStatus subscription.status
  features := plan.features
  limits := plan.limits
  effectiveAt := timestamp
  expiresAt := subscription.currentPeriodEnd
  sourceEventId := some (buildEntitlementSourceEventId subscription)
  createdAt := (existing.map (·.createdAt)).getD timestamp
  updatedAt := timestamp

end SuperFunctions.Billfn.Subscriptions
