import SuperFunctions.Billfn.AccountEntitlements
import SuperFunctions.Billfn.EventCalls

/-!
# The moves of a series of events

The conditions under which events and syncs converge, and one lemma for each phase of a call that
says what its move does under them.
-/
namespace SuperFunctions.Billfn.EventMoves

open Subscriptions Projections ProjectionWrites EventSeries EventWrites EventCalls Option List

variable {parseDate : String → Option Int} {σ : Series parseDate} {catalog : BillFnCatalog}

section Conditions

variable (σ)

instance (request : Request) : Decidable (isLatest σ request) :=
  inferInstanceAs (Decidable (_ = _))

/-- A provider answers a sync about the subscription, before the latest event is delivered. -/
def Premise (requests : List Request) (phase : Phase) (answer : Answer) : Prop :=
  match phase, answer with
  | .asking (.fetchSubscription row _ _), .state state =>
    (∀ request ∈ requests, ¬ isLatest σ request) ∧ Ours σ row ∧
      (state.providerSubscriptionId = none ∨ state.providerSubscriptionId = some σ.ref) ∧
      (state.raw.getD []).lookup PROVIDER_EVENT_OCCURRED_AT_METADATA_KEY = none
  | _, _ => True

/-- A sync is written over the row it has read, the references of an event name no row that shows
a later one, the price of a projection is one of the provider, and a snapshot without a source is
replaced only as it was read. -/
def Careful (db : Tables) (request : Request) (phase : Phase) : Prop :=
  match phase with
  | .entered =>
    match request with
    | .processParsedWebhookEvent provider event =>
      ∀ state ∈ event.billingState, ∀ row ∈ findSubscriptionByProviderRef db provider
        state.providerSubscriptionId state.providerChargeId event.checkoutReferenceId, AtMost σ row
    | _ => True
  | .lookup input =>
    ∀ row ∈ findSubscriptionByProviderRef db input.price.provider
      input.state.providerSubscriptionId input.state.providerChargeId
      (input.checkoutSession.map (·.checkoutSessionId)), AtMost σ row
  | .relookup _ input =>
    ∀ row ∈ findSubscriptionByProviderRef db input.price.provider
      input.state.providerSubscriptionId input.state.providerChargeId
      (input.checkoutSession.map (·.checkoutSessionId)), AtMost σ row
  | .attempt _ input base =>
    input.price.provider = σ.provider ∧
      (input.occurredAt = none → ∀ row ∈ base, row ∈ db.subscriptions)
  | .writeSnapshot _ _ _ _ _ existing =>
    ∀ e ∈ existing, e.sourceEventId = none → e ∈ db.entitlementSnapshots
  | _ => True

instance (requests : List Request) (phase : Phase) (answer : Answer) :
    Decidable (Premise σ requests phase answer) := by
  unfold Premise
  split <;> infer_instance

instance (db : Tables) (request : Request) (phase : Phase) :
    Decidable (Careful σ db request phase) :=
  match phase with
  | .entered =>
    match request with
    | .processParsedWebhookEvent _ _ => by
      dsimp only [Careful]
      infer_instance
    | .syncSubscriptionById _ | .syncSubscription _ _ | .verifyCheckout _ _ | .cancelSubscription _ _
    | .changeSubscription _ _ _ _ | .resumeSubscription _ _ | .refundCharge _ _ _
    | .restorePurchases _ _ _ _ _ => .isTrue trivial
  | .lookup _ | .relookup _ _ | .attempt _ _ _ | .writeSnapshot _ _ _ _ _ _ => by
    dsimp only [Careful]
    infer_instance
  | .asking _ | .context _ _ _ _ | .reread _ _ _ | .session _ _ | .readSnapshot _ _ _ _ _
  | .recordBillingEvent _ | .finished _ | .threw _ => .isTrue trivial

end Conditions

variable {n : Nat} {account : String} {base : Option BillFnSubscription}

section Moves

variable {db db' : Tables} {free : Prop} {request : Request} {choice : Choice} {phase' : Phase}

theorem moved_on {phase : Phase} (hrows : db'.subscriptions = db.subscriptions)
    (hsnapshots : db'.entitlementSnapshots = db.entitlementSnapshots)
    (hwas : writing phase = none) (hnot : ¬ Applied phase')
    (hinv : PhaseInv σ catalog db' free request phase') :
    Moved σ catalog db free request phase db' phase' := by
  refine .read db' phase' hrows hsnapshots (fun _ h => absurd h hnot) ?_ hinv
  intro record _ hrecord
  rw [hwas] at hrecord
  cases hrecord

/-- An event that is older than the row leaves everything as it is. -/
theorem moved_older {phase : Phase} (hwas : writing phase = none)
    (hnot : ¬ isLatest σ request) : Moved σ catalog db free request phase db (.finished none) := by
  refine .read db _ rfl rfl (fun hlatest => absurd hlatest hnot) ?_ trivial
  intro record _ hrecord
  rw [hwas] at hrecord
  cases hrecord

theorem enter_sync_moved (hdb : Consistent db)
    (hrows : db'.subscriptions = db.subscriptions)
    (hsnapshots : db'.entitlementSnapshots = db.entitlementSnapshots)
    (hfresh : free → ∀ row ∈ db.subscriptions, Ours σ row → Old σ row)
    (hsync : IsSync request) (target : String) :
    Moved σ catalog db free request .entered db' (syncSubscriptionById catalog db' target) := by
  unfold syncSubscriptionById
  split
  · exact .threw _ _ hrows hsnapshots
  rename_i row hrow
  split
  · rcases withPrice_cases catalog row.planKey row.priceId
      (fun plan price => .asking (.fetchSubscription row plan price)) with
      ⟨error, herror⟩ | ⟨plan, hplan, price, hnext⟩
    · rw [herror]
      exact .threw _ _ hrows hsnapshots
    · rw [hnext]
      have hmem : row ∈ db.subscriptions := hrows ▸ mem_of_getById hrow
      exact moved_on hrows hsnapshots rfl id ⟨hsync, (held_of_mem hdb hmem).congr hrows, hplan,
        fun hfree hours => hfresh hfree row hmem hours⟩
  · exact .threw _ _ hrows hsnapshots

theorem account_rows (db : Tables) (account : String) :
    (getOrCreateBillingAccount db account).subscriptions = db.subscriptions ∧
      (getOrCreateBillingAccount db account).entitlementSnapshots = db.entitlementSnapshots := by
  unfold getOrCreateBillingAccount
  split <;> exact ⟨rfl, rfl⟩

theorem enter_moved (hdb : Consistent db)
    (hfresh : free → ∀ row ∈ db.subscriptions, Ours σ row → Old σ row) (hknown : Known σ request)
    (hcareful : Careful σ db request .entered) (h : enter catalog db request = (db', phase')) :
    Moved σ catalog db free request .entered db' phase' := by
  cases request with
  | processParsedWebhookEvent provider event =>
    obtain ⟨rfl, hevent⟩ := hknown
    obtain ⟨state, hstate, -⟩ := σ.about event hevent
    simp only [enter, hstate] at h
    cases h
    refine moved_on rfl rfl rfl id ⟨rfl, rfl, hevent, hstate, fun row hrow => ?_⟩
    exact base_of_mem hdb (mem_of_byProviderRef hrow) (hcareful state hstate row hrow)
  | syncSubscriptionById target =>
    have hsync : IsSync (.syncSubscriptionById target) := trivial
    cases h
    exact enter_sync_moved hdb rfl rfl hfresh hsync target
  | syncSubscription account target =>
    have hsync : IsSync (.syncSubscription account target) := trivial
    obtain ⟨hrows, hsnapshots⟩ := account_rows db account
    cases h
    split
    · exact .threw _ _ hrows hsnapshots
    · exact enter_sync_moved hdb hrows hsnapshots hfresh hsync _
  | _ => exact absurd hknown id

variable {requests : List Request}

theorem answered_moved {provider : Asking}
    (hinv : PhaseInv σ catalog db free request (.asking provider))
    (hfree : free ↔ ∀ other ∈ requests, ¬ isLatest σ other)
    (hpremise : Premise σ requests (.asking provider) choice.answer)
    (h : answered catalog db choice provider = (db', phase')) :
    Moved σ catalog db free request (.asking provider) db' phase' := by
  cases provider with
  | fetchSubscription row plan price =>
    obtain ⟨hsync, hheld, hplan, hold⟩ := hinv
    unfold answered at h
    cases hanswer : choice.answer with
    | state state =>
      rw [hanswer] at h hpremise
      cases h
      obtain ⟨hbefore, hours, href, hraw⟩ := hpremise
      exact moved_on rfl rfl rfl id (.inr ⟨⟨hsync, rfl, hplan, href, hraw⟩, row, rfl, hheld, hours,
        hold (hfree.mpr hbefore) hours⟩)
    | nothing | _ =>
      rw [hanswer] at h
      cases h
      exact .threw _ _ rfl rfl
  | _ => exact absurd hinv id

variable {input : ApplyVerificationStateInput} {event : BillFnParsedWebhookEvent}

theorem apply_moved {phase : Phase} (hwas : writing phase = none) (hevent : event ∈ σ.events)
    (hrequest : request = .processParsedWebhookEvent σ.provider event)
    (hinput : EventInput σ catalog event input)
    (hbase : ∀ row, input.subscription = some row → Base σ db row) :
    Moved σ catalog db free request phase db (applyVerificationState input) := by
  unfold applyVerificationState
  split
  · rename_i row hrow
    refine moved_on rfl rfl hwas id (.inl ⟨⟨event, hevent, hrequest, hinput⟩, ?_⟩)
    intro other hother
    cases hother
    exact hbase row hrow
  · exact moved_on rfl rfl hwas id ⟨event, hevent, hrequest, hinput⟩

theorem context_moved {provider : String} {state : BillFnVerifiedBillingState}
    {subscription : Option BillFnSubscription}
    (hinv : PhaseInv σ catalog db free request (.context provider event state subscription)) :
    Moved σ catalog db free request (.context provider event state subscription) db
      (eventContext catalog parseDate db provider event state subscription) := by
  obtain ⟨hrequest, rfl, hevent, hstate, hbase⟩ := hinv
  have hcases : Contextual σ catalog event subscription
      (eventContext catalog parseDate db σ.provider event state subscription) :=
    eventContext_cases hstate
  generalize eventContext catalog parseDate db σ.provider event state subscription = phase' at hcases
  cases hcases with
  | threw error => exact .threw _ _ rfl rfl
  | older row occurredAt hrow hpresent holder =>
    apply moved_older rfl
    intro hlatest
    -- the latest event is not older than a row of its own references
    obtain ⟨text, htext, hne, htime⟩ := σ.dated σ.latest σ.member
    have hsame : event = σ.latest := by
      rw [hrequest] at hlatest
      cases hlatest
      rfl
    subst hsame
    rw [htext, present_some hne] at hpresent
    cases hpresent
    rw [latest_not_older (hbase row hrow).atMost htime] at holder
    cases holder
  | project input hinput hrow =>
    exact apply_moved rfl hevent hrequest hinput fun row h => hbase row (hrow.symm.trans h)

theorem lookup_moved {phase : Phase} {provider : String} {a b c : Option String}
    (hdb : Consistent db) (hwas : writing phase = none) (hevent : EventOk σ catalog request input)
    (hcareful : ∀ row ∈ findSubscriptionByProviderRef db provider a b c, AtMost σ row) :
    Moved σ catalog db free request phase db
      (.attempt n input (findSubscriptionByProviderRef db provider a b c)) :=
  moved_on rfl rfl hwas id (.inl ⟨hevent, fun row hrow =>
    base_of_mem hdb (mem_of_byProviderRef hrow) (hcareful row hrow)⟩)

variable {plan : BillFnPlanDefinition} {record : BillFnSubscription}

theorem writes_of_wrote (hdb' : Consistent db') (hwrote : Wrote σ catalog db db' request record)
    (hlisted : plan ∈ catalog) (hplan : plan.planKey = record.planKey) :
    Writes σ catalog db' record.billingAccountId plan record record.updatedAt := by
  refine ⟨held_record hdb' hwrote.written, ?_, rfl, hlisted, hplan, rfl⟩
  intro s hs hid
  rcases (hwrote.written.rows s).mp hs with rfl | ⟨-, hne⟩
  · exact ⟨hwrote.ours, rfl⟩
  · exact absurd hid hne

section

variable (hdb : Consistent db)
include hdb

theorem session_moved_of_wrote {phase : Phase} {now : Int} {newId : String}
    (hlisted : input.plan ∈ catalog)
    (hwrote : Wrote σ catalog db db' request (projectedSubscription base input now newId)) :
    Moved σ catalog db free request phase db'
      (.session input (projectedSubscription base input now newId)) :=
  .wrote db' input _ hwrote (writes_of_wrote (hwrote.written.consistent hdb) hwrote hlisted rfl)

theorem write_event_moved (he : event ∈ σ.events)
    (hrequest : request = .processParsedWebhookEvent σ.provider event)
    (hinput : EventInput σ catalog event input) (hbase : ∀ row, base = some row → Base σ db row ∧
      row.billingAccountId = input.billingAccountId ∧ ∃ occurredAt,
        input.occurredAt = some occurredAt ∧
          isProviderEventOlderThanSubscription parseDate row occurredAt = false)
    (hprovider : input.price.provider = σ.provider)
    (h : writeProjection db choice n input base = (db', phase')) :
    Moved σ catalog db free request (.attempt n input base) db' phase' := by
  have hok : EventOk σ catalog request input := ⟨event, he, hrequest, hinput⟩
  obtain ⟨text, htext, hne, -⟩ := σ.dated event he
  have hpresent : (present input.occurredAt).isSome = true := by
    rw [hinput.occurredAt.trans htext, present_some hne]
    rfl
  subst hrequest
  cases base with
  | some row =>
    obtain ⟨hrow, haccount, hnotOlder⟩ := hbase row rfl
    have hid : (projectedSubscription (some row) input choice.now choice.generatedId).id = row.id :=
      rfl
    have hlater : row.updatedAt <
        (projectedSubscription (some row) input choice.now choice.generatedId).updatedAt :=
      nextSubscriptionUpdatedAt_gt choice.now row.updatedAt
    simp only [writeProjection, hpresent, if_true] at h
    split at h
    · cases h
      exact .threw _ _ rfl rfl
    rename_i written affected hwrite
    have hours : Ours σ (projectedSubscription (some row) input choice.now choice.generatedId) :=
      ours_event he hinput hprovider
    rcases compareAndSet_cases hdb hrow.held hid hlater haccount hwrite with
      ⟨hone, hmem, hw⟩ | ⟨hnone, hsame⟩
    · rw [if_pos hone] at h
      cases h
      apply session_moved_of_wrote hdb hinput.plan
      refine wrote_event hdb he hinput hprovider ?_ (fun hbase => by cases hbase)
        (alone_of_write hours hwrite) hw
      intro other hother
      cases hother
      exact ⟨hmem, hnotOlder⟩
    · rw [if_neg hnone] at h
      cases h
      subst hsame
      exact moved_on rfl rfl rfl id ⟨hok, hrow.calm⟩
  | none =>
    simp only [writeProjection] at h
    split at h
    · rename_i created hcreate
      have hours : Ours σ (projectedSubscription none input choice.now choice.generatedId) :=
        ours_event he hinput hprovider
      have halone := alone_of_create hours hcreate
      cases h
      apply session_moved_of_wrote hdb hinput.plan
      refine wrote_event hdb he hinput hprovider (fun row hrow => by cases hrow)
        (fun _ s hs => (halone s hs).1) ?_ (written_create hdb hcreate)
      intro s hs _
      exact (halone s hs).2
    · cases h
      exact moved_on rfl rfl rfl id hok

theorem attempt_event_moved (hevent : EventOk σ catalog request input)
    (hbase : ∀ row, base = some row → Base σ db row) (hprovider : input.price.provider = σ.provider)
    (h : attempt parseDate db choice n input base = (db', phase')) :
    Moved σ catalog db free request (.attempt n input base) db' phase' := by
  obtain ⟨event, he, rfl, hinput⟩ := hevent
  obtain ⟨text, htext, hne, htime⟩ := σ.dated event he
  have hsome : input.occurredAt = some text := hinput.occurredAt.trans htext
  have hpresent : present input.occurredAt = some text := by rw [hsome, present_some hne]
  unfold attempt at h
  split at h
  · cases h
    exact .threw _ _ rfl rfl
  split at h
  · cases h
    exact .threw _ _ rfl rfl
  rename_i haccount
  split at h
  · rename_i holder
    cases h
    apply moved_older rfl
    intro hlatest
    have hsame : event = σ.latest := by
      cases hlatest
      rfl
    subst hsame
    obtain ⟨row, hrow, hany⟩ := (any_eq_true _ _).mp holder
    rw [hpresent, any_some, latest_not_older (hbase row hrow).atMost htime] at hany
    cases hany
  · rename_i hnotOlder
    split at h
    · cases h
      exact .threw _ _ rfl rfl
    refine write_event_moved hdb he rfl hinput ?_ hprovider h
    intro row hrow
    subst hrow
    refine ⟨hbase row rfl, ?_, text, hsome, ?_⟩
    · rwa [any_some, decide_eq_true_eq, not_not] at haccount
    · rwa [hpresent, any_some, any_some, Bool.not_eq_true] at hnotOlder

theorem attempt_sync_moved {row : BillFnSubscription} (hsync : IsSync request)
    (hinput : SyncInput σ catalog input) (hmem : row ∈ db.subscriptions) (hours : Ours σ row)
    (hold : Old σ row) (hprovider : input.price.provider = σ.provider)
    (h : attempt parseDate db choice n input (some row) = (db', phase')) :
    Moved σ catalog db free request (.attempt n input (some row)) db' phase' := by
  have hnone : present input.occurredAt = none := by
    rw [hinput.occurredAt]
    rfl
  have hnot : ¬ isLatest σ request := by
    intro hlatest
    rwa [hlatest] at hsync
  unfold attempt at h
  split at h
  · cases h
    exact .threw _ _ rfl rfl
  split at h
  · cases h
    exact .threw _ _ rfl rfl
  rename_i haccount
  rw [any_some, decide_eq_true_eq, not_not] at haccount
  split at h
  · rename_i holder
    rw [hnone] at holder
    cases holder
  split at h
  · cases h
    exact .threw _ _ rfl rfl
  simp only [writeProjection, hnone, isSome_none, Bool.false_eq_true, if_false] at h
  split at h
  · cases h
    exact .threw _ _ rfl rfl
  rename_i written affected hwrite
  have htest : ∀ s ∈ db.subscriptions, decide (s.id = row.id) = true ↔ s = row := by
    intro s hs
    rw [decide_eq_true_eq]
    constructor
    · exact row_unique hdb hs hmem
    · rintro rfl
      rfl
  have hid : (projectedSubscription (some row) input choice.now
      choice.generatedId).id = row.id := rfl
  have hlater : row.updatedAt < (projectedSubscription (some row) input choice.now
      choice.generatedId).updatedAt :=
    nextSubscriptionUpdatedAt_gt choice.now row.updatedAt
  obtain ⟨hone, hw⟩ := written_replace hdb hmem htest hid hlater haccount hwrite
  rw [if_neg (by omega)] at h
  cases h
  apply session_moved_of_wrote hdb hinput.plan
  exact wrote_sync hdb hinput hprovider hmem hours hold hnot
    (alone_of_write (ours_sync hinput hprovider hours) hwrite) hw

end

variable {timestamp : Int}

theorem Writes.congr (hsame : db'.subscriptions = db.subscriptions)
    (h : Writes σ catalog db account plan record timestamp) :
    Writes σ catalog db' account plan record timestamp := by
  refine { h with held := h.held.congr hsame, own := ?_ }
  rw [hsame]
  exact h.own

theorem session_moved (hinv : PhaseInv σ catalog db free request (.session input record))
    (hrows : db'.subscriptions = db.subscriptions)
    (hsnapshots : db'.entitlementSnapshots = db.entitlementSnapshots) :
    Moved σ catalog db free request (.session input record) db'
      (.readSnapshot 0 input.billingAccountId input.plan record record.updatedAt) :=
  .read db' _ hrows hsnapshots (fun _ _ => trivial) (fun _ _ => id) (Writes.congr hrows hinv)

section

variable (hdb : Consistent db)
include hdb

theorem readSnapshot_moved
    (hinv : PhaseInv σ catalog db free request (.readSnapshot n account plan record timestamp))
    (h : advance catalog parseDate db choice request
      (.readSnapshot n account plan record timestamp) = some (db', phase')) :
    Moved σ catalog db free request (.readSnapshot n account plan record timestamp) db' phase' := by
  simp only [advance] at h
  split at h
  · cases h
    exact .threw _ _ rfl rfl
  split at h
  · cases h
    exact .threw _ _ rfl rfl
  split at h
  · rename_i hnewer
    cases h
    refine .read db _ rfl rfl (fun _ _ => trivial) ?_ trivial
    intro current hcurrent hwriting
    have hsame : record = current := some.inj hwriting
    subst hsame
    obtain ⟨e, he, hnew⟩ := (any_eq_true _ _).mp hnewer
    rw [AccountEntitlements.not_newer hdb hcurrent (mem_of_findSnapshot he)] at hnew
    cases hnew
  · rename_i hnotNewer
    cases h
    refine .read db _ rfl rfl (fun _ _ => trivial) (fun _ _ => id) ⟨hinv, ?_⟩
    intro e he
    have haccount := account_of_findSnapshot he
    refine ⟨haccount, ?_, ?_⟩
    · rw [hdb.snapshotIds e (mem_of_findSnapshot he), haccount]
    · rwa [he, any_some, Bool.not_eq_true] at hnotNewer

theorem updateSnapshots_cases {row snapshot : BillFnEntitlementSnapshot}
    (hrow : row.billingAccountId = account) (haccount : snapshot.billingAccountId = account)
    (hid : snapshot.id = s!"ent_{account}")
    (hsource : ∀ source, snapshot.sourceEventId = some source →
      ∃ s ∈ db.subscriptions, s.id = source.1 ∧ source.2 ≤ s.updatedAt) :
    (∃ current, findEntitlementSnapshot db account = some current ∧
        unchangedSnapshot row current = true ∧ (updateSnapshots db row snapshot).2 = 1 ∧
        Snapped db (updateSnapshots db row snapshot).1 account snapshot) ∨
      ((updateSnapshots db row snapshot).2 ≠ 1 ∧ (updateSnapshots db row snapshot).1 = db) := by
  by_cases hsome : ∃ e ∈ db.entitlementSnapshots, unchangedSnapshot row e = true
  · obtain ⟨e, he, hunchanged⟩ := hsome
    have heAccount : e.billingAccountId = account := by
      unfold unchangedSnapshot at hunchanged
      rw [decide_eq_true_eq] at hunchanged
      exact hunchanged.1.trans hrow
    have hfind : findEntitlementSnapshot db account = some e := by
      cases hfound : findEntitlementSnapshot db account with
      | none =>
        have hnot := find?_eq_none.mp hfound e he
        simp [heAccount] at hnot
      | some f =>
        rw [snapshot_unique hdb he (mem_of_findSnapshot hfound)
          (heAccount.trans (account_of_findSnapshot hfound).symm)]
    -- on the rows that are there the test of the stale copy is that of the current row
    have htests : ∀ f ∈ db.entitlementSnapshots,
        unchangedSnapshot row f = unchangedSnapshot e f := by
      intro f hf
      by_cases hfe : f = e
      · rw [hfe, hunchanged, (unchanged_iff hdb he he).mpr rfl]
      have hnotRow : unchangedSnapshot row f = false := by
        rw [Bool.eq_false_iff]
        intro hf'
        unfold unchangedSnapshot at hf'
        rw [decide_eq_true_eq] at hf'
        exact hfe (snapshot_unique hdb hf he ((hf'.1.trans hrow).trans heAccount.symm))
      have hnotE : unchangedSnapshot e f = false := by
        rw [Bool.eq_false_iff]
        intro hf'
        exact hfe ((unchanged_iff hdb he hf).mp hf')
      rw [hnotRow, hnotE]
    have hsame : updateSnapshots db row snapshot = updateSnapshots db e snapshot := by
      unfold updateSnapshots
      congr 1
      · congr 1
        apply map_congr_left
        intro f hf
        rw [htests f hf]
      · apply countP_congr
        intro f hf
        rw [htests f hf]
    have hids : snapshot.id = e.id := by
      rw [hid, hdb.snapshotIds e he, heAccount]
    obtain ⟨hone, hsnapped⟩ := snapped_update hdb hfind haccount hids hsource
    left
    exact ⟨e, hfind, hunchanged, by rw [hsame]; exact hone, by rw [hsame]; exact hsnapped⟩
  · right
    have hnone : ∀ e ∈ db.entitlementSnapshots, ¬ unchangedSnapshot row e = true :=
      fun e he h => hsome ⟨e, he, h⟩
    refine ⟨?_, ?_⟩
    · show db.entitlementSnapshots.countP (unchangedSnapshot row) ≠ 1
      rw [countP_eq_zero.mpr hnone]
      omega
    have hmap : (db.entitlementSnapshots.map fun s =>
        if unchangedSnapshot row s then snapshot else s) = db.entitlementSnapshots := by
      conv_rhs => rw [← map_id db.entitlementSnapshots]
      apply map_congr_left
      intro e he
      exact if_neg (hnone e he)
    unfold updateSnapshots
    rw [hmap]

theorem writeSnapshot_moved {existing : Option BillFnEntitlementSnapshot}
    (hinv : PhaseInv σ catalog db free request
      (.writeSnapshot n account plan record timestamp existing))
    (hcareful : ∀ e ∈ existing, e.sourceEventId = none → e ∈ db.entitlementSnapshots)
    (h : upsertEntitlements db n account plan record timestamp existing = (db', phase')) :
    Moved σ catalog db free request (.writeSnapshot n account plan record timestamp existing)
      db' phase' := by
  obtain ⟨hwrites, hexisting⟩ := hinv
  have htime := hwrites.time
  subst htime
  obtain ⟨s, hs, hsid⟩ := hwrites.held.present
  have hsource : ∀ source,
      (projectedSnapshot existing account plan record record.updatedAt).sourceEventId
        = some source → ∃ s ∈ db.subscriptions, s.id = source.1 ∧ source.2 ≤ s.updatedAt := by
    intro source hsource
    cases hsource
    exact ⟨s, hs, hsid, (hwrites.held.past s hs hsid).1⟩
  have hagain : Moved σ catalog db free request
      (.writeSnapshot n account plan record record.updatedAt existing) db
      (.readSnapshot (n + 1) account plan record record.updatedAt) :=
    .read db _ rfl rfl (fun _ _ => trivial) (fun _ _ => id) hwrites
  cases existing with
  | some row =>
    obtain ⟨hrow, hid, hnotNewer⟩ := hexisting row rfl
    have haccount : (projectedSnapshot (some row) account plan record
        record.updatedAt).billingAccountId = account := rfl
    have hids : (projectedSnapshot (some row) account plan record record.updatedAt).id
        = s!"ent_{account}" := hid
    simp only [upsertEntitlements] at h
    rcases updateSnapshots_cases hdb hrow haccount hids hsource with
      ⟨current, hfind, hunchanged, hone, hsnapped⟩ | ⟨hnone, hsame⟩
    · rw [if_pos hone] at h
      cases h
      refine .snapped _ account plan record (some row) rfl hwrites ?_ hsnapped
      intro e he
      have hcurrent : current = e := Option.some.inj (hfind.symm.trans he)
      subst hcurrent
      unfold unchangedSnapshot at hunchanged
      rw [decide_eq_true_eq] at hunchanged
      cases hsourceRow : row.sourceEventId with
      | some source =>
        rw [hsourceRow, isSome_some, if_pos rfl] at hunchanged
        unfold isEntitlementFromNewerSubscription at hnotNewer ⊢
        rwa [hunchanged.2, ← hsourceRow]
      | none =>
        have hmem := hcareful row rfl hsourceRow
        rwa [snapshot_unique hdb (mem_of_findSnapshot hfind) hmem hunchanged.1]
    · rw [if_neg hnone, hsame] at h
      cases h
      exact hagain
  | none =>
    simp only [upsertEntitlements] at h
    cases hfind : findEntitlementSnapshot db account with
    | none =>
      have haccount : (projectedSnapshot none account plan record
          record.updatedAt).billingAccountId = account := rfl
      have hids : (projectedSnapshot none account plan record record.updatedAt).id
          = s!"ent_{account}" := rfl
      obtain ⟨created, hcreate, hsnapped⟩ := snapped_create hdb hfind haccount hids hsource
      rw [hcreate] at h
      cases h
      refine .snapped _ account plan record none rfl hwrites ?_ hsnapped
      intro e he
      rw [hfind] at he
      cases he
    | some e =>
      have hclash : createSnapshot db
          (projectedSnapshot none account plan record record.updatedAt) = none := by
        unfold createSnapshot
        apply if_pos
        rw [List.any_eq_true]
        refine ⟨e, mem_of_findSnapshot hfind, ?_⟩
        rw [decide_eq_true_eq]
        exact .inr (account_of_findSnapshot hfind)
      rw [hclash] at h
      cases h
      exact hagain

theorem advance_moved (hfresh : free → ∀ row ∈ db.subscriptions, Ours σ row → Old σ row)
    (hfree : free ↔ ∀ other ∈ requests, ¬ isLatest σ other) {phase : Phase}
    (hinv : PhaseInv σ catalog db free request phase)
    (hpremise : Premise σ requests phase choice.answer) (hcareful : Careful σ db request phase)
    (h : advance catalog parseDate db choice request phase = some (db', phase')) :
    Moved σ catalog db free request phase db' phase' := by
  cases phase with
  | entered =>
    simp only [advance] at h
    split at h
    · cases h
      exact .threw _ _ rfl rfl
    · exact enter_moved hdb hfresh hinv hcareful (some.inj h)
  | asking provider => exact answered_moved hinv hfree hpremise (some.inj h)
  | context provider event state subscription =>
    simp only [advance] at h
    split at h
    · cases h
      exact .threw _ _ rfl rfl
    · cases h
      exact context_moved hinv
  | lookup input =>
    simp only [advance] at h
    split at h
    · cases h
      exact .threw _ _ rfl rfl
    · cases h
      exact lookup_moved hdb rfl hinv hcareful
  | attempt n input base =>
    have hguard : input.price.provider = σ.provider ∧
        (input.occurredAt = none → ∀ row ∈ base, row ∈ db.subscriptions) := hcareful
    rcases hinv with ⟨hevent, hbase⟩ | ⟨⟨hsync, hinput⟩, row, rfl, hheld, hours, hold⟩
    · exact attempt_event_moved hdb hevent hbase hguard.1 (some.inj h)
    · exact attempt_sync_moved hdb hsync hinput (hguard.2 hinput.occurredAt row rfl) hours hold
        hguard.1 (some.inj h)
  | reread n input id =>
    simp only [advance] at h
    split at h
    · cases h
      exact .threw _ _ rfl rfl
    split at h
    · cases h
      exact .threw _ _ rfl rfl
    rename_i current hcurrent
    cases h
    obtain ⟨hevent, hcalm⟩ := hinv
    refine moved_on rfl rfl rfl (fun happlied => happlied) (.inl ⟨hevent, ?_⟩)
    intro row hrow
    cases hrow
    exact base_of_mem hdb (mem_of_getById hcurrent)
      (hcalm _ (mem_of_getById hcurrent) (id_of_getById hcurrent))
  | relookup n input =>
    simp only [advance] at h
    split at h
    · cases h
      exact .threw _ _ rfl rfl
    split at h
    · cases h
      exact .threw _ _ rfl rfl
    rename_i duplicate hduplicate
    cases h
    rw [← hduplicate]
    exact lookup_moved hdb rfl hinv hcareful
  | session input record =>
    simp only [advance] at h
    split at h
    · cases h
      exact .threw _ _ rfl rfl
    cases hsession : input.checkoutSession with
    | none | some session =>
      rw [hsession] at h
      cases h
      exact session_moved hinv rfl rfl
  | readSnapshot n account plan record timestamp => exact readSnapshot_moved hdb hinv h
  | writeSnapshot n account plan record timestamp existing =>
    simp only [advance] at h
    split at h
    · cases h
      exact .threw _ _ rfl rfl
    · unfold Careful at hcareful
      exact writeSnapshot_moved hdb hinv hcareful (some.inj h)
  | recordBillingEvent record =>
    simp only [advance] at h
    split at h
    · cases h
      exact .threw _ _ rfl rfl
    · cases h
      refine .read db _ rfl rfl (fun _ _ => trivial) ?_ trivial
      intro current _ hwriting
      cases hwriting
  | finished subscription => cases h
  | threw error => cases h

end

end Moves

end SuperFunctions.Billfn.EventMoves
