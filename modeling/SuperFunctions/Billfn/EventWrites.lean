import SuperFunctions.Billfn.ProjectionWrites

/-!
# A series of provider events

The events of one subscription at one provider, told apart by their times, and what their
projections leave on the row of that subscription: the marker is the time of the event projected
last, and the row that carries the time of the latest event says what that event said.
-/
namespace SuperFunctions.Billfn.EventSeries

open Subscriptions Projections

/-- The events of the subscription that `provider` calls `ref`. -/
structure Series (parseDate : String → Option Int) where
  provider : String
  ref : String
  events : List BillFnParsedWebhookEvent
  latest : BillFnParsedWebhookEvent
  instant : BillFnParsedWebhookEvent → Int
  named : ref ≠ ""
  dated : ∀ e ∈ events, ∃ occurredAt, e.occurredAt = some occurredAt ∧ occurredAt ≠ "" ∧
    parseProviderEventTime parseDate occurredAt = some (instant e)
  about : ∀ e ∈ events, ∃ state, e.billingState = some state ∧
    state.providerSubscriptionId = some ref
  apart : ∀ e ∈ events, ∀ f ∈ events, instant e = instant f → e = f
  member : latest ∈ events
  last : ∀ e ∈ events, instant e ≤ instant latest

section Series

variable {parseDate : String → Option Int} (σ : Series parseDate) (catalog : BillFnCatalog)

/-- The time of the event that was projected last. -/
def marker (parseDate : String → Option Int) (row : BillFnSubscription) : Option Int :=
  (lastOccurredAt row).bind (parseProviderEventTime parseDate)

def Ours (row : BillFnSubscription) : Prop :=
  row.provider = σ.provider ∧ row.providerSubscriptionId = some σ.ref

/-- The row shows no event as late as the latest one. -/
def Old (row : BillFnSubscription) : Prop :=
  ∀ m ∈ marker parseDate row, m < σ.instant σ.latest

def AtMost (row : BillFnSubscription) : Prop :=
  ∀ m ∈ marker parseDate row, m ≤ σ.instant σ.latest

instance (row : BillFnSubscription) : Decidable (Ours σ row) := inferInstanceAs (Decidable (_ ∧ _))

instance (row : BillFnSubscription) : Decidable (Old σ row) :=
  inferInstanceAs (Decidable (∀ m ∈ marker parseDate row, _))

instance (row : BillFnSubscription) : Decidable (AtMost σ row) :=
  inferInstanceAs (Decidable (∀ m ∈ marker parseDate row, _))

/-- The price that an event names itself. -/
def eventPrice (provider : String) (event : BillFnParsedWebhookEvent)
    (state : BillFnVerifiedBillingState) : Option (BillFnPlanDefinition × BillFnPriceDefinition) :=
  if includes event.type.toLower "change_renewal_pref" then none
  else [present event.priceId, readString (state.raw.getD []) "product_id",
      readString (state.raw.getD []) "productId", readString (state.raw.getD []) "price_id",
      readString (state.raw.getD []) "priceId"].findSome? fun reference =>
    reference.bind (findCatalogPriceReference catalog provider)

/-- The row has the status of the latest event, and its plan and price where the event names one. -/
structure ByLatest (row : BillFnSubscription) : Prop where
  marker : marker parseDate row = some (σ.instant σ.latest)
  told : ∃ state, σ.latest.billingState = some state ∧ row.status = state.subscriptionStatus ∧
    ∀ plan price, eventPrice catalog σ.provider σ.latest state = some (plan, price) →
      row.planKey = plan.planKey ∧ row.priceId = price.priceId

/-- What the projection of an event is called with. -/
structure EventInput (event : BillFnParsedWebhookEvent) (input : ApplyVerificationStateInput) :
    Prop where
  state : event.billingState = some input.state
  occurredAt : input.occurredAt = event.occurredAt
  plan : input.plan ∈ catalog
  priced : ∀ plan price, eventPrice catalog σ.provider event input.state = some (plan, price) →
    input.plan = plan ∧ input.price = price

/-- What the projection of a sync is called with: the provider's answer has no time and is about
the subscription. -/
structure SyncInput (input : ApplyVerificationStateInput) : Prop where
  occurredAt : input.occurredAt = none
  plan : input.plan ∈ catalog
  ref : input.state.providerSubscriptionId = none ∨ input.state.providerSubscriptionId = some σ.ref
  raw : (input.state.raw.getD []).lookup PROVIDER_EVENT_OCCURRED_AT_METADATA_KEY = none

end Series

section Markers

variable {parseDate : String → Option Int} {σ : Series parseDate} {catalog : BillFnCatalog}
  {occurredAt : String}

theorem isOlder_iff {row : BillFnSubscription} {time : Int}
    (htime : parseProviderEventTime parseDate occurredAt = some time) :
    isProviderEventOlderThanSubscription parseDate row occurredAt = true ↔
      ∃ m, marker parseDate row = some m ∧ time < m := by
  unfold isProviderEventOlderThanSubscription marker
  cases hlast : lastOccurredAt row with
  | none => simp
  | some last =>
    simp only [htime, Option.bind_some]
    cases hparse : parseProviderEventTime parseDate last with
    | none => simp
    | some m => simp

theorem not_old_of_byLatest {row : BillFnSubscription} (h : ByLatest σ catalog row) :
    ¬ Old σ row := by
  intro hold
  have hlt := hold _ h.marker
  omega

theorem atMost_of_old {row : BillFnSubscription} (h : Old σ row) : AtMost σ row := by
  intro m hm
  have hlt := h m hm
  omega

theorem atMost_of_byLatest {row : BillFnSubscription} (h : ByLatest σ catalog row) :
    AtMost σ row := by
  intro m hm
  have hsame : m = σ.instant σ.latest := Option.some.inj (hm.symm.trans h.marker)
  omega

theorem present_some {text : String} (h : text ≠ "") : present (some text) = some text := by
  simp [present, h]

/-- The latest event is not older than anything in the series has shown. -/
theorem latest_not_older {row : BillFnSubscription} (h : AtMost σ row)
    (htime : parseProviderEventTime parseDate occurredAt = some (σ.instant σ.latest)) :
    isProviderEventOlderThanSubscription parseDate row occurredAt = false := by
  rw [Bool.eq_false_iff]
  intro holder
  obtain ⟨m, hm, hlt⟩ := (isOlder_iff htime).mp holder
  have hle := h m hm
  omega

theorem instant_lt {e : BillFnParsedWebhookEvent} (he : e ∈ σ.events) (hne : e ≠ σ.latest) :
    σ.instant e < σ.instant σ.latest := by
  have hle := σ.last e he
  have hapart : σ.instant e ≠ σ.instant σ.latest := by
    intro hsame
    exact hne (σ.apart e he σ.latest σ.member hsame)
  omega

theorem marker_event {base : Option BillFnSubscription} {input : ApplyVerificationStateInput}
    {now : Int} {newId : String} {time : Int} (hsome : input.occurredAt = some occurredAt)
    (hne : occurredAt ≠ "") (htime : parseProviderEventTime parseDate occurredAt = some time) :
    marker parseDate (projectedSubscription base input now newId) = some time := by
  have hmeta : (projectedSubscription base input now newId).metadata =
      some ((PROVIDER_EVENT_OCCURRED_AT_METADATA_KEY, .text occurredAt) ::
        (mergeJson (base.bind (·.metadata)) input.state.raw).getD []) := by
    show projectedMetadata base input = _
    unfold projectedMetadata
    rw [hsome, present_some hne]
  have hlast : lastOccurredAt (projectedSubscription base input now newId) = some occurredAt := by
    unfold lastOccurredAt
    rw [hmeta]
    simp [readString, hne]
  unfold marker
  rwa [hlast]

theorem lookup_append_none {raw rest : Metadata} {key : String} (h : raw.lookup key = none) :
    (raw ++ rest).lookup key = rest.lookup key := by
  induction raw with
  | nil => rfl
  | cons entry raw ih =>
    obtain ⟨k, v⟩ := entry
    rw [List.cons_append]
    simp only [List.lookup_cons] at h ⊢
    cases hkey : key == k with
    | true =>
      rw [hkey] at h
      cases h
    | false =>
      rw [hkey] at h
      exact ih h

theorem marker_sync {row : BillFnSubscription} {input : ApplyVerificationStateInput} {now : Int}
    {newId : String} (hnone : input.occurredAt = none)
    (hraw : (input.state.raw.getD []).lookup PROVIDER_EVENT_OCCURRED_AT_METADATA_KEY = none) :
    marker parseDate (projectedSubscription (some row) input now newId) = marker parseDate row := by
  have hmeta : (projectedSubscription (some row) input now newId).metadata =
      mergeJson row.metadata input.state.raw := by
    show projectedMetadata (some row) input = _
    unfold projectedMetadata
    rw [hnone]
    rfl
  have hread : ∀ metadata : Metadata, input.state.raw.getD [] ++ row.metadata.getD [] = metadata →
      readString metadata PROVIDER_EVENT_OCCURRED_AT_METADATA_KEY =
        readString (row.metadata.getD []) PROVIDER_EVENT_OCCURRED_AT_METADATA_KEY := by
    rintro metadata rfl
    unfold readString
    rw [lookup_append_none hraw]
  have hlast : lastOccurredAt (projectedSubscription (some row) input now newId) =
      lastOccurredAt row := by
    unfold lastOccurredAt
    rw [hmeta]
    cases hrow : row.metadata with
    | none =>
      rw [hrow] at hread
      cases hstate : input.state.raw with
      | none => rfl
      | some raw =>
        rw [hstate] at hread
        exact hread _ rfl
    | some metadata =>
      rw [hrow] at hread
      cases hstate : input.state.raw with
      | none | some raw =>
        rw [hstate] at hread
        exact hread _ rfl
  unfold marker
  rw [hlast]

end Markers

end SuperFunctions.Billfn.EventSeries

/-!
# The writes of a series of events

A call that has read a row can tell from `updatedAt` whether the row is still what it read. So an
event is written over the row it was compared with, and a sync is when nobody has written in
between.
-/
namespace SuperFunctions.Billfn.EventWrites

open Subscriptions Projections ProjectionWrites EventSeries List

section Held

/-- The row was in the table at some time: it has been replaced by later ones at most. -/
structure Held (db : Tables) (row : BillFnSubscription) : Prop where
  present : ∃ s ∈ db.subscriptions, s.id = row.id
  past : ∀ s ∈ db.subscriptions, s.id = row.id →
    row.updatedAt ≤ s.updatedAt ∧ (s.updatedAt = row.updatedAt → s = row)

variable {db db' : Tables} {row record : BillFnSubscription}

theorem held_of_mem (hdb : Consistent db) (h : row ∈ db.subscriptions) : Held db row := by
  refine ⟨⟨row, h, rfl⟩, fun s hs hid => ?_⟩
  rw [row_unique hdb hs h hid]
  exact ⟨Int.le_refl _, fun _ => rfl⟩

theorem Held.congr (hsame : db'.subscriptions = db.subscriptions) (h : Held db row) :
    Held db' row := by
  obtain ⟨hpresent, hpast⟩ := h
  rw [← hsame] at hpresent hpast
  exact ⟨hpresent, hpast⟩

theorem Held.written (hw : Written db db' record) (h : Held db row) : Held db' row := by
  obtain ⟨old, hold, hid⟩ := h.present
  by_cases hrecord : old.id = record.id
  · have hlater := (hw.later old hold hrecord).1
    have hle := (h.past old hold hid).1
    refine ⟨⟨record, (hw.rows record).mpr (.inl rfl), hrecord.symm.trans hid⟩, ?_⟩
    intro s hs hsid
    rcases (hw.rows s).mp hs with rfl | ⟨-, hne⟩
    · exact ⟨by omega, fun hsame => by omega⟩
    · exact absurd ((hsid.trans hid.symm).trans hrecord) hne
  · refine ⟨⟨old, (hw.rows old).mpr (.inr ⟨hold, hrecord⟩), hid⟩, ?_⟩
    intro s hs hsid
    rcases (hw.rows s).mp hs with rfl | ⟨hs', -⟩
    · exact absurd (hid.trans hsid.symm) hrecord
    · exact h.past s hs' hsid

theorem held_record (hdb' : Consistent db') (hw : Written db db' record) : Held db' record :=
  held_of_mem hdb' ((hw.rows record).mpr (.inl rfl))

end Held

variable {newId : String} {base : Option BillFnSubscription}

section Writes

variable {parseDate : String → Option Int} {σ : Series parseDate} {catalog : BillFnCatalog}
  {db db' : Tables} {record : BillFnSubscription}

def isLatest (σ : Series parseDate) (request : Request) : Prop :=
  request = .processParsedWebhookEvent σ.provider σ.latest

/-- What a projection of the series leaves in the table. -/
structure Wrote (σ : Series parseDate) (catalog : BillFnCatalog) (db db' : Tables)
    (request : Request) (record : BillFnSubscription) : Prop where
  written : Written db db' record
  ours : Ours σ record
  alone : ∀ s ∈ db.subscriptions, s.id ≠ record.id → ¬ Ours σ s
  old : ¬ isLatest σ request → Old σ record
  latest : isLatest σ request → ByLatest σ catalog record
  kept : ∀ s ∈ db.subscriptions, Ours σ s → ByLatest σ catalog s → ByLatest σ catalog record
  marker : ∀ s ∈ db.subscriptions, Ours σ s → ∀ m, marker parseDate s = some m →
    ∃ m', EventSeries.marker parseDate record = some m' ∧ m ≤ m'

theorem Wrote.timely {request : Request} (h : Wrote σ catalog db db' request record) :
    Old σ record ∨ ByLatest σ catalog record := by
  by_cases hlatest : isLatest σ request
  · exact .inr (h.latest hlatest)
  · exact .inl (h.old hlatest)

theorem alone_of_write {test : BillFnSubscription → Bool} {affected : Nat}
    (hours : Ours σ record) (h : writeSubscription db record test = some (db', affected)) :
    ∀ s ∈ db.subscriptions, s.id ≠ record.id → ¬ Ours σ s := by
  unfold writeSubscription at h
  split at h
  · cases h
  rename_i hfree
  intro s hs hne hs'
  apply hfree
  rw [any_eq_true]
  refine ⟨s, hs, ?_⟩
  rw [decide_eq_true_eq]
  refine ⟨hne, ?_⟩
  unfold clash
  rw [decide_eq_true_eq]
  refine .inr ⟨hours.1.trans hs'.1.symm, .inl ⟨?_, hours.2.trans hs'.2.symm⟩⟩
  rw [hours.2]
  rfl

theorem alone_of_create (hours : Ours σ record) (h : createSubscription db record = some db') :
    ∀ s ∈ db.subscriptions, s.id ≠ record.id ∧ ¬ Ours σ s := by
  unfold createSubscription at h
  split at h
  · cases h
  rename_i hfree
  intro s hs
  have hno : ¬ clash record s = true := fun hclash =>
    hfree (any_eq_true.mpr ⟨s, hs, hclash⟩)
  unfold clash at hno
  rw [decide_eq_true_eq, not_or] at hno
  refine ⟨fun hid => hno.1 hid.symm, fun hs' => hno.2 ?_⟩
  refine ⟨hours.1.trans hs'.1.symm, .inl ⟨?_, hours.2.trans hs'.2.symm⟩⟩
  rw [hours.2]
  rfl

/-- The compare-and-set on a row that the call has read: either the row is still that one and is
replaced, or nothing changes. -/
theorem compareAndSet_cases (hdb : Consistent db) {row : BillFnSubscription} (hheld : Held db row)
    (hid : record.id = row.id) (hlater : row.updatedAt < record.updatedAt)
    (haccount : row.billingAccountId = record.billingAccountId) {affected : Nat}
    (h : writeSubscription db record
      (fun s => decide (s.id = row.id ∧ s.updatedAt = row.updatedAt)) = some (db', affected)) :
    (affected = 1 ∧ row ∈ db.subscriptions ∧ Written db db' record) ∨
      (affected ≠ 1 ∧ db' = db) := by
  by_cases hrow : row ∈ db.subscriptions
  · have htest : ∀ s ∈ db.subscriptions,
        decide (s.id = row.id ∧ s.updatedAt = row.updatedAt) = true ↔ s = row := by
      intro s hs
      rw [decide_eq_true_eq]
      constructor
      · intro hsame
        exact row_unique hdb hs hrow hsame.1
      · rintro rfl
        exact ⟨rfl, rfl⟩
    obtain ⟨hone, hw⟩ := written_replace hdb hrow htest hid hlater haccount h
    exact .inl ⟨hone, hrow, hw⟩
  · have hnone : ∀ s ∈ db.subscriptions,
        ¬ decide (s.id = row.id ∧ s.updatedAt = row.updatedAt) = true := by
      intro s hs htest
      rw [decide_eq_true_eq] at htest
      exact hrow ((hheld.past s hs htest.1).2 htest.2 ▸ hs)
    unfold writeSubscription at h
    split at h
    · cases h
    cases h
    refine .inr ⟨?_, ?_⟩
    · rw [countP_eq_zero.mpr hnone]
      omega
    have hmap : (db.subscriptions.map fun s =>
        if decide (s.id = row.id ∧ s.updatedAt = row.updatedAt) then record else s)
          = db.subscriptions := by
      conv_rhs => rw [← map_id db.subscriptions]
      apply map_congr_left
      intro s hs
      exact if_neg (hnone s hs)
    rw [hmap]

section Event

variable {event : BillFnParsedWebhookEvent} {input : ApplyVerificationStateInput}

theorem ours_event {now : Int} (he : event ∈ σ.events) (hinput : EventInput σ catalog event input)
    (hprovider : input.price.provider = σ.provider) :
    Ours σ (projectedSubscription base input now newId) := by
  obtain ⟨state, hstate, href⟩ := σ.about event he
  have hsame : input.state = state := Option.some.inj (hinput.state.symm.trans hstate)
  refine ⟨hprovider, ?_⟩
  show input.state.providerSubscriptionId.or _ = _
  rw [hsame, href]
  rfl

theorem byLatest_event {now : Int} (hinput : EventInput σ catalog σ.latest input) :
    ByLatest σ catalog (projectedSubscription base input now newId) := by
  obtain ⟨occurredAt, hsome, hne, htime⟩ := σ.dated σ.latest σ.member
  refine ⟨marker_event (hinput.occurredAt.trans hsome) hne htime, input.state, hinput.state, rfl, ?_⟩
  intro plan price hprice
  obtain ⟨hplan, hpriced⟩ := hinput.priced plan price hprice
  exact ⟨congrArg (·.planKey) hplan, congrArg (·.priceId) hpriced⟩

theorem wrote_event {now : Int} (hdb : Consistent db) (he : event ∈ σ.events)
    (hinput : EventInput σ catalog event input) (hprovider : input.price.provider = σ.provider)
    (hbase : ∀ row, base = some row → row ∈ db.subscriptions ∧ ∃ occurredAt,
      input.occurredAt = some occurredAt ∧
      isProviderEventOlderThanSubscription parseDate row occurredAt = false)
    (hcreated : base = none → ∀ s ∈ db.subscriptions, s.id ≠
      (projectedSubscription base input now newId).id) (halone : ∀ s ∈ db.subscriptions,
      s.id ≠ (projectedSubscription base input now newId).id → ¬ Ours σ s)
    (hw : Written db db' (projectedSubscription base input now newId)) :
    Wrote σ catalog db db' (.processParsedWebhookEvent σ.provider event)
      (projectedSubscription base input now newId) := by
  obtain ⟨occurredAt, hsome, hne, htime⟩ := σ.dated event he
  have hmarker : marker parseDate (projectedSubscription base input now newId) =
      some (σ.instant event) := marker_event (hinput.occurredAt.trans hsome) hne htime
  -- the row of the series that is there is the one that the event was compared with
  have hcompared : ∀ s ∈ db.subscriptions, Ours σ s → ∀ m, marker parseDate s = some m →
      m ≤ σ.instant event := by
    intro s hs hours m hm
    have hid : s.id = (projectedSubscription base input now newId).id := by
      by_contra hne'
      exact halone s hs hne' hours
    cases base with
    | none => exact absurd hid (hcreated rfl s hs)
    | some row =>
      obtain ⟨hrow, text, htext, hnotOlder⟩ := hbase row rfl
      have hsr : s = row := row_unique hdb hs hrow hid
      have hsame : text = occurredAt :=
        Option.some.inj (htext.symm.trans (hinput.occurredAt.trans hsome))
      subst hsr hsame
      by_contra hlt
      have holder := (isOlder_iff htime).mpr ⟨m, hm, by omega⟩
      rw [hnotOlder] at holder
      cases holder
  refine ⟨hw, ours_event he hinput hprovider, halone, ?_, ?_, ?_, ?_⟩
  · intro hnot m hm
    have hlt := instant_lt he fun hsame => hnot (by rw [hsame]; rfl)
    have hmt : m = σ.instant event := Option.some.inj (hm.symm.trans hmarker)
    omega
  · intro hlatest
    have hsame : event = σ.latest := by
      cases hlatest
      rfl
    subst hsame
    exact byLatest_event hinput
  · intro s hs hours hby
    have hle := hcompared s hs hours _ hby.marker
    have hlast := σ.last event he
    have hsame : event = σ.latest := σ.apart event he σ.latest σ.member (by omega)
    subst hsame
    exact byLatest_event hinput
  · intro s hs hours m hm
    exact ⟨_, hmarker, hcompared s hs hours m hm⟩

end Event

theorem ours_sync {input : ApplyVerificationStateInput} {row : BillFnSubscription} {now : Int}
    (hinput : SyncInput σ catalog input) (hprovider : input.price.provider = σ.provider)
    (hours : Ours σ row) : Ours σ (projectedSubscription (some row) input now newId) := by
  refine ⟨hprovider, ?_⟩
  show input.state.providerSubscriptionId.or row.providerSubscriptionId = _
  rcases hinput.ref with hnone | hsome
  · rw [hnone, hours.2]
    rfl
  · rw [hsome]
    rfl

theorem wrote_sync {input : ApplyVerificationStateInput} {row : BillFnSubscription} {now : Int}
    {request : Request} (hdb : Consistent db) (hinput : SyncInput σ catalog input)
    (hprovider : input.price.provider = σ.provider) (hrow : row ∈ db.subscriptions)
    (hours : Ours σ row) (hold : Old σ row) (hsync : ¬ isLatest σ request)
    (halone : ∀ s ∈ db.subscriptions,
      s.id ≠ (projectedSubscription (some row) input now newId).id → ¬ Ours σ s)
    (hw : Written db db' (projectedSubscription (some row) input now newId)) :
    Wrote σ catalog db db' request (projectedSubscription (some row) input now newId) := by
  have hmarker : marker parseDate (projectedSubscription (some row) input now newId) =
      marker parseDate row := marker_sync hinput.occurredAt hinput.raw
  have hsame : ∀ s ∈ db.subscriptions, Ours σ s → s = row := by
    intro s hs hs'
    by_contra hne
    exact halone s hs (fun hid => hne (row_unique hdb hs hrow hid)) hs'
  refine ⟨hw, ours_sync hinput hprovider hours, halone, ?_,
    fun hlatest => absurd hlatest hsync, ?_, ?_⟩
  · intro _ m hm
    exact hold m (hmarker ▸ hm)
  · intro s hs hs' hby
    rw [hsame s hs hs'] at hby
    exact absurd hold (not_old_of_byLatest hby)
  · intro s hs hs' m hm
    rw [hsame s hs hs'] at hm
    exact ⟨m, hmarker.trans hm, Int.le_refl _⟩

end Writes

end SuperFunctions.Billfn.EventWrites
