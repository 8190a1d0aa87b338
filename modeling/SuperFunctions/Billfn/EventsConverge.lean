import SuperFunctions.Billfn.EventMoves

/-!
# Provider events converge

Over every interleaving the row of the subscription goes from one event to a later one, the latest
event is not overtaken, and the snapshot of the account is written from the last state of the row.
A sync that is written over a row it has not read is the exception: it puts an older state and an
older marker back.
-/
namespace SuperFunctions.Billfn.EventsConverge

open Lib.Processes Lib.Transition Subscriptions Projections ProjectionWrites
open EventSeries EventWrites EventCalls EventMoves List

variable {account : String} {record row : BillFnSubscription} {plan : BillFnPlanDefinition}
  {request : Request}

section Frames

variable {parseDate : String → Option Int} {σ : Series parseDate} {catalog : BillFnCatalog}
  {db db' : Tables}

/-- What other calls know about the rows stays true. -/
structure Frame (σ : Series parseDate) (db db' : Tables) : Prop where
  held : ∀ row, Held db row → Held db' row
  calm : ∀ id, (∀ s ∈ db.subscriptions, s.id = id → AtMost σ s) →
    ∀ s ∈ db'.subscriptions, s.id = id → AtMost σ s
  own : ∀ row, Held db row →
    (∀ s ∈ db.subscriptions, s.id = row.id → Ours σ s ∧ s.billingAccountId = row.billingAccountId) →
    ∀ s ∈ db'.subscriptions, s.id = row.id → Ours σ s ∧ s.billingAccountId = row.billingAccountId

theorem frame_same (h : db'.subscriptions = db.subscriptions) : Frame σ db db' := by
  refine ⟨fun row hrow => hrow.congr h, ?_, ?_⟩
  · intro id hcalm
    rwa [h]
  · intro row _ hown
    rwa [h]

theorem frame_wrote (h : Wrote σ catalog db db' request record) : Frame σ db db' := by
  refine ⟨fun row hrow => hrow.written h.written, ?_, ?_⟩
  · intro id hcalm s hs hid
    rcases (h.written.rows s).mp hs with rfl | ⟨hold, -⟩
    · rcases h.timely with hold | hlatest
      · exact atMost_of_old hold
      · exact atMost_of_byLatest hlatest
    · exact hcalm s hold hid
  · intro row hheld hown s hs hid
    rcases (h.written.rows s).mp hs with rfl | ⟨hold, -⟩
    · obtain ⟨t, ht, htid⟩ := hheld.present
      refine ⟨h.ours, ?_⟩
      have hsame := (h.written.later t ht (htid.trans hid.symm)).2
      exact hsame.symm.trans (hown t ht htid).2
    · exact hown s hold hid

theorem Writes.frame (hframe : Frame σ db db') {timestamp : Int}
    (h : Writes σ catalog db account plan record timestamp) :
    Writes σ catalog db' account plan record timestamp :=
  { h with held := hframe.held record h.held, own := hframe.own record h.held h.own }

theorem Base.frame (hframe : Frame σ db db') (h : Base σ db row) : Base σ db' row :=
  ⟨hframe.held row h.held, h.atMost, hframe.calm row.id h.calm⟩

theorem phaseInv_frame (hframe : Frame σ db db') {free free' : Prop} (hfree : free' → free)
    {phase : Phase} (h : PhaseInv σ catalog db free request phase) :
    PhaseInv σ catalog db' free' request phase := by
  cases phase with
  | asking provider =>
    cases provider with
    | fetchSubscription row plan price =>
      obtain ⟨hsync, hheld, hplan, hold⟩ := h
      exact ⟨hsync, hframe.held row hheld, hplan, fun hf => hold (hfree hf)⟩
    | _ => exact absurd h id
  | context provider event state subscription =>
    obtain ⟨hrequest, hprovider, hevent, hstate, hbase⟩ := h
    exact ⟨hrequest, hprovider, hevent, hstate, fun row hrow => Base.frame hframe (hbase row hrow)⟩
  | attempt n input base =>
    rcases h with ⟨hevent, hbase⟩ | ⟨hsync, row, hrow, hheld, hours, hold⟩
    · exact .inl ⟨hevent, fun row hrow => Base.frame hframe (hbase row hrow)⟩
    · exact .inr ⟨hsync, row, hrow, hframe.held row hheld, hours, hold⟩
  | reread n input id => exact ⟨h.1, hframe.calm id h.2⟩
  | session input record => exact Writes.frame hframe h
  | readSnapshot n account plan record timestamp => exact Writes.frame hframe h
  | writeSnapshot n account plan record timestamp existing => exact ⟨Writes.frame hframe h.1, h.2⟩
  | entered => exact h
  | lookup input => exact h
  | relookup n input => exact h
  | recordBillingEvent record => trivial
  | finished subscription => trivial
  | threw error => trivial

end Frames

variable {db' : Tables} {existing : Option BillFnEntitlementSnapshot}

section Runs

variable {parseDate : String → Option Int} {σ : Series parseDate} {catalog : BillFnCatalog}

def requests (s : Deployment) : List Request := s.procs.map (·.request)

/-- The latest event has not been delivered. -/
def Free (σ : Series parseDate) (s : Deployment) : Prop :=
  ∀ request ∈ requests s, ¬ isLatest σ request

/-- The requests of the series under the conditions of `Premise` and `Careful`. -/
def Steady (σ : Series parseDate) (s : Deployment) : Act Request Choice → Prop
  | .spawn request => Known σ request
  | .move i choice => ∀ call ∈ s.procs[i]?,
    Premise σ (requests s) call.phase choice.answer ∧ Careful σ s.shared call.request call.phase

instance (s : Deployment) : (a : Act Request Choice) → Decidable (Steady σ s a)
  | .spawn request => inferInstanceAs (Decidable (Known σ request))
  | .move i _ => inferInstanceAs (Decidable (∀ call ∈ s.procs[i]?, _ ∧ _))

/-- The snapshot of the account is the one of this state of the subscription. -/
structure SnapshotOf (catalog : BillFnCatalog) (row : BillFnSubscription)
    (e : BillFnEntitlementSnapshot) : Prop where
  planKey : e.planKey = row.planKey
  status : e.status = mapSubscriptionToEntitlementStatus row.status
  expiresAt : e.expiresAt = row.currentPeriodEnd
  source : e.sourceEventId = some (buildEntitlementSourceEventId row)
  plan : ∃ plan ∈ catalog, plan.planKey = row.planKey ∧ e.features = plan.features ∧
    e.limits = plan.limits

def Derived (catalog : BillFnCatalog) (db : Tables) (row : BillFnSubscription) : Prop :=
  ∃ e, findEntitlementSnapshot db row.billingAccountId = some e ∧ SnapshotOf catalog row e

def Failed (s : Deployment) : Prop := ∃ call ∈ s.procs, ∃ error, call.phase = .threw error

/-- The latest event was projected onto the row of the series. -/
def Settled (σ : Series parseDate) (catalog : BillFnCatalog) (db : Tables) : Prop :=
  ∃ row ∈ db.subscriptions, Ours σ row ∧ ByLatest σ catalog row

structure Inv (σ : Series parseDate) (catalog : BillFnCatalog) (db₀ : Tables) (s : Deployment) :
    Prop where
  consistent : Consistent s.shared
  unique : ∀ row ∈ s.shared.subscriptions, ∀ other ∈ s.shared.subscriptions, Ours σ row →
    Ours σ other → row = other
  fresh : Free σ s → ∀ row ∈ s.shared.subscriptions, Ours σ row → Old σ row
  each : Each (fun db _ call => PhaseInv σ catalog db (Free σ s) call.request call.phase) s
  settled : ∀ call ∈ s.procs, isLatest σ call.request → Applied call.phase →
    Settled σ catalog s.shared
  snapshot : ∀ row ∈ s.shared.subscriptions, Ours σ row → row ∈ db₀.subscriptions ∨
    Derived catalog s.shared row ∨ (∃ call ∈ s.procs, writing call.phase = some row) ∨ Failed s

variable {db : Tables}

section

variable (hwrites : Writes σ catalog db account plan record record.updatedAt)
include hwrites

theorem derived_snapped
    (h : Snapped db db' account (projectedSnapshot existing account plan record record.updatedAt)) :
    Derived catalog db' record := by
  refine ⟨projectedSnapshot existing account plan record record.updatedAt, ?_, ?_⟩
  · rw [hwrites.onAccount]
    exact h.own
  · exact ⟨hwrites.onPlan, rfl, rfl, rfl, plan, hwrites.listed, hwrites.onPlan, rfl, rfl⟩

theorem derived_kept (hrow : row ∈ db.subscriptions) (hid : row.id = record.id)
    (hnewer : ∀ e, findEntitlementSnapshot db account = some e →
      isEntitlementFromNewerSubscription e record = false)
    (h : Snapped db db' account (projectedSnapshot existing account plan record record.updatedAt))
    (hderived : Derived catalog db row) : Derived catalog db' row := by
  obtain ⟨e, he, hsnapshot⟩ := hderived
  have haccount : row.billingAccountId = account :=
    (hwrites.own row hrow hid).2.trans hwrites.onAccount
  obtain ⟨hle, heq⟩ := hwrites.held.past row hrow hid
  have hnotNewer := hnewer e (haccount ▸ he)
  unfold isEntitlementFromNewerSubscription at hnotNewer
  rw [hsnapshot.source] at hnotNewer
  have hnotLater : ¬ (row.id = record.id ∧ record.updatedAt < row.updatedAt) :=
    of_decide_eq_false hnotNewer
  have htime : row.updatedAt = record.updatedAt := by
    by_contra hne
    exact hnotLater ⟨hid, by omega⟩
  rw [heq htime]
  exact derived_snapped hwrites h

end

section Step

variable {db₀ : Tables} {s : Deployment} {i : Nat} {call : Call} {phase : Phase}

theorem free_move (db' : Tables) (hcall : s.procs[i]? = some call) :
    Free σ (⟨db', s.procs.set i { call with phase := phase }⟩ : Deployment) ↔ Free σ s := by
  have hlt : i < s.procs.length := (List.getElem?_eq_some_iff.mp hcall).1
  have hsame : requests (⟨db', s.procs.set i { call with phase := phase }⟩ : Deployment)
      = requests s := by
    unfold requests
    apply ext_getElem?
    intro j
    rw [getElem?_map, getElem?_map]
    by_cases hj : j = i
    · subst hj
      rw [getElem?_set_self hlt, hcall]
      rfl
    · rw [getElem?_set_ne fun h => hj h.symm]
  unfold Free
  rw [hsame]

theorem not_free_of_latest (hcall : s.procs[i]? = some call) (hlatest : isLatest σ call.request) :
    ¬ Free σ s := by
  intro hfree
  exact hfree _ (mem_map_of_mem (mem_of_getElem? hcall)) hlatest

theorem each_frame (hinv : Inv σ catalog db₀ s) (hcall : s.procs[i]? = some call)
    (hframe : Frame σ s.shared db') (hown : PhaseInv σ catalog db' (Free σ s) call.request phase) :
    Each (fun db _ (c : Call) => PhaseInv σ catalog db
      (Free σ (⟨db', s.procs.set i { call with phase := phase }⟩ : Deployment))
      c.request c.phase) ⟨db', s.procs.set i { call with phase := phase }⟩ := by
  have hfree : Free σ (⟨db', s.procs.set i { call with phase := phase }⟩ : Deployment) →
      Free σ s := (free_move db' hcall).mp
  refine each_move (G := fun db _ (c : Call) => PhaseInv σ catalog db
    (Free σ (⟨db', s.procs.set i { call with phase := phase }⟩ : Deployment))
    c.request c.phase) ?_ ?_
  · exact phaseInv_frame (frame_same rfl) hfree hown
  · intro j other _ hother
    exact phaseInv_frame hframe hfree (hinv.each j other hother)

theorem failed_move (db' : Tables) (hcall : s.procs[i]? = some call)
    (hrunning : ∀ error, call.phase ≠ .threw error) (h : Failed s) :
    Failed (⟨db', s.procs.set i { call with phase := phase }⟩ : Deployment) := by
  rcases exists_set { call with phase := phase } hcall h with ⟨error, herror⟩ | hstill
  · exact absurd herror (hrunning error)
  · exact hstill

section

variable (hinv : Inv σ catalog db₀ s)
include hinv

section

variable (hcall : s.procs[i]? = some call)
include hcall

theorem inv_frame (hrunning : ∀ error, call.phase ≠ .threw error)
    (hrows : db'.subscriptions = s.shared.subscriptions) (hconsistent : Consistent db')
    (happlied : isLatest σ call.request → Applied phase → Applied call.phase)
    (hderived : ∀ row ∈ s.shared.subscriptions, Ours σ row → Derived catalog s.shared row →
      Derived catalog db' row)
    (hwriting : ∀ row ∈ s.shared.subscriptions, writing call.phase = some row →
      Derived catalog db' row ∨ writing phase = some row ∨ ∃ error, phase = .threw error)
    (hown : PhaseInv σ catalog db' (Free σ s) call.request phase) :
    Inv σ catalog db₀ ⟨db', s.procs.set i { call with phase := phase }⟩ := by
  have hsettled : Settled σ catalog s.shared → Settled σ catalog db' := by
    unfold Settled
    rw [hrows]
    exact id
  have hnow := moved_mem { call with phase := phase } hcall
  refine ⟨hconsistent, ?_, ?_, each_frame hinv hcall (frame_same hrows) hown, ?_, ?_⟩
  · show ∀ row ∈ db'.subscriptions, ∀ other ∈ db'.subscriptions, _
    rw [hrows]
    exact hinv.unique
  · intro hfree
    rw [hrows]
    exact hinv.fresh ((free_move db' hcall).mp hfree)
  · intro other hother hlatest hother'
    rcases mem_or_eq_of_mem_set hother with hold | rfl
    · exact hsettled (hinv.settled other hold hlatest hother')
    · exact hsettled (hinv.settled call (mem_of_getElem? hcall) hlatest (happlied hlatest hother'))
  · show ∀ row ∈ db'.subscriptions, _
    rw [hrows]
    intro row hrow hours
    rcases hinv.snapshot row hrow hours with hinitial | hd | hpending | hfailed
    · exact .inl hinitial
    · exact .inr (.inl (hderived row hrow hours hd))
    · rcases exists_set { call with phase := phase } hcall hpending with hmine | hstill
      · rcases hwriting row hrow hmine with hd | hnext | ⟨error, herror⟩
        · exact .inr (.inl hd)
        · exact .inr (.inr (.inl ⟨_, hnow, hnext⟩))
        · exact .inr (.inr (.inr ⟨_, hnow, error, herror⟩))
      · exact .inr (.inr (.inl hstill))
    · exact .inr (.inr (.inr (failed_move db' hcall hrunning hfailed)))

theorem inv_read (hrunning : ∀ error, call.phase ≠ .threw error)
    (hrows : db'.subscriptions = s.shared.subscriptions)
    (hsnapshots : db'.entitlementSnapshots = s.shared.entitlementSnapshots)
    (happlied : isLatest σ call.request → Applied phase → Applied call.phase)
    (hwriting : ∀ record ∈ s.shared.subscriptions, writing call.phase = some record →
      writing phase = some record ∨ ∃ error, phase = .threw error)
    (hown : PhaseInv σ catalog db' (Free σ s) call.request phase) :
    Inv σ catalog db₀ ⟨db', s.procs.set i { call with phase := phase }⟩ := by
  have hconsistent : Consistent db' := by
    obtain ⟨hids, haccounts, hsnapshotIds, hsources⟩ := hinv.consistent
    refine ⟨?_, ?_, ?_, ?_⟩
    · rwa [hrows]
    · rwa [hsnapshots]
    · rwa [hsnapshots]
    · rwa [hrows, hsnapshots]
  refine inv_frame hinv hcall hrunning hrows hconsistent happlied (fun row _ _ => ?_)
    (fun row hrow hmine => .inr (hwriting row hrow hmine)) hown
  unfold Derived findEntitlementSnapshot
  rw [hsnapshots]
  exact id

theorem inv_wrote {input : ApplyVerificationStateInput}
    (hwrote : Wrote σ catalog s.shared db' call.request record)
    (hown : PhaseInv σ catalog db' (Free σ s) call.request (.session input record)) :
    Inv σ catalog db₀ ⟨db', s.procs.set i { call with phase := .session input record }⟩ := by
  have hrecord : record ∈ db'.subscriptions := (hwrote.written.rows record).mpr (.inl rfl)
  have honly : ∀ row ∈ db'.subscriptions, Ours σ row → row = record := by
    intro row hrow hours
    rcases (hwrote.written.rows row).mp hrow with rfl | ⟨hold, hne⟩
    · rfl
    · exact absurd hours (hwrote.alone row hold hne)
  have hnow := moved_mem { call with phase := .session input record } hcall
  refine ⟨hwrote.written.consistent hinv.consistent, ?_, ?_,
    each_frame hinv hcall (frame_wrote hwrote) hown, ?_, ?_⟩
  · intro row hrow other hother hours hours'
    rw [honly row hrow hours, honly other hother hours']
  · intro hfree row hrow hours
    rw [honly row hrow hours]
    apply hwrote.old
    intro hlatest
    exact not_free_of_latest hcall hlatest ((free_move db' hcall).mp hfree)
  · intro other hother hlatest hother'
    rcases mem_or_eq_of_mem_set hother with hold | rfl
    · obtain ⟨row, hrow, hours, hby⟩ := hinv.settled other hold hlatest hother'
      exact ⟨record, hrecord, hwrote.ours, hwrote.kept row hrow hours hby⟩
    · exact ⟨record, hrecord, hwrote.ours, hwrote.latest hlatest⟩
  · intro row hrow hours
    rw [honly row hrow hours]
    exact .inr (.inr (.inl ⟨_, hnow, rfl⟩))

theorem inv_snapped (hwriting : writing call.phase = some record)
    (hwrites : Writes σ catalog s.shared account plan record record.updatedAt)
    (hnewer : ∀ e, findEntitlementSnapshot s.shared account = some e →
      isEntitlementFromNewerSubscription e record = false) (hsnapped : Snapped s.shared db' account
      (projectedSnapshot existing account plan record record.updatedAt)) :
    Inv σ catalog db₀ ⟨db', s.procs.set i { call with phase := .recordBillingEvent record }⟩ := by
  have hrows := hsnapped.rows
  have happlied : Applied call.phase := by
    cases hphase : call.phase with
    | session _ _ => trivial
    | readSnapshot _ _ _ _ _ => trivial
    | writeSnapshot _ _ _ _ _ _ => trivial
    | _ =>
      rw [hphase] at hwriting
      cases hwriting
  have hrunning : ∀ error, call.phase ≠ .threw error := by
    intro error herror
    rw [herror] at hwriting
    cases hwriting
  refine inv_frame hinv hcall hrunning hrows hsnapped.consistent (fun _ _ => happlied)
    (fun row hrow hours hd => ?_) (fun row hrow hmine => ?_) trivial
  · have hid : row.id = record.id := by
      obtain ⟨t, ht, htid⟩ := hwrites.held.present
      rwa [hinv.unique row hrow t ht hours (hwrites.own t ht htid).1]
    exact derived_kept hwrites hrow hid hnewer hsnapped hd
  · cases hwriting.symm.trans hmine
    exact .inl (derived_snapped hwrites hsnapped)

theorem inv_moved (hrunning : ∀ error, call.phase ≠ .threw error)
    (hmoved : Moved σ catalog s.shared (Free σ s) call.request call.phase db' phase) :
    Inv σ catalog db₀ ⟨db', s.procs.set i { call with phase := phase }⟩ := by
  cases hmoved with
  | threw error hrows hsnapshots =>
    exact inv_read hinv hcall hrunning hrows hsnapshots (fun _ h => absurd h id)
      (fun _ _ _ => .inr ⟨error, rfl⟩) trivial
  | read _ hrows hsnapshots happlied hwriting hown =>
    exact inv_read hinv hcall hrunning hrows hsnapshots happlied
      (fun record hrecord h => .inl (hwriting record hrecord h)) hown
  | wrote input record hwrote hown => exact inv_wrote hinv hcall hwrote hown
  | snapped account plan record existing hwriting hwrites hnewer hsnapped =>
    exact inv_snapped hinv hcall hwriting hwrites hnewer hsnapped

end

end

end Step

theorem threw_stuck {choice : Choice} {phase phase' : Phase}
    (h : advance catalog parseDate db choice request phase = some (db', phase')) (error : Thrown) :
    phase ≠ .threw error := by
  rintro rfl
  cases h

theorem inv_step {db₀ : Tables} (s : Deployment) (a : Act Request Choice) (s' : Deployment)
    (hinv : Inv σ catalog db₀ s) (hsteady : Steady σ s a)
    (h : deploymentStep catalog parseDate s a = some s') : Inv σ catalog db₀ s' := by
  rcases act_cases h with ⟨request, rfl, rfl⟩ | ⟨i, choice, call, db', call', rfl, hcall, hmove, rfl⟩
  · have hfree : Free σ (⟨s.shared, s.procs ++ [newCall request]⟩ : Deployment) → Free σ s := by
      intro hall other hother
      apply hall
      unfold requests at hother ⊢
      rw [map_append]
      exact mem_append_left _ hother
    refine ⟨hinv.consistent, hinv.unique, fun hall => hinv.fresh (hfree hall), ?_, ?_, ?_⟩
    · have heach : Each (fun db _ (c : Call) => PhaseInv σ catalog db
          (Free σ (⟨s.shared, s.procs ++ [newCall request]⟩ : Deployment)) c.request c.phase) s :=
        fun j other hother => phaseInv_frame (frame_same rfl) hfree (hinv.each j other hother)
      exact each_spawn heach hsteady
    · intro other hother hlatest happlied
      rcases mem_append.mp hother with hold | hnew
      · exact hinv.settled other hold hlatest happlied
      · rw [mem_singleton.mp hnew] at happlied
        exact absurd happlied id
    · intro row hrow hours
      rcases hinv.snapshot row hrow hours with hinitial | hd | ⟨c, hc, hw⟩ | ⟨c, hc, he⟩
      · exact .inl hinitial
      · exact .inr (.inl hd)
      · exact .inr (.inr (.inl ⟨c, mem_append_left _ hc, hw⟩))
      · exact .inr (.inr (.inr ⟨c, mem_append_left _ hc, he⟩))
  · obtain ⟨⟨db'', phase⟩, hadvance, hr⟩ := Option.map_eq_some_iff.mp hmove
    cases hr
    obtain ⟨hpremise, hcareful⟩ := hsteady call hcall
    exact inv_moved hinv hcall (threw_stuck hadvance)
      (advance_moved hinv.consistent hinv.fresh Iff.rfl (hinv.each i call hcall) hpremise hcareful
        hadvance)

theorem marker_step {db₀ : Tables} {s s' : Deployment} {a : Act Request Choice}
    (hinv : Inv σ catalog db₀ s) (hsteady : Steady σ s a)
    (h : deploymentStep catalog parseDate s a = some s') :
    ∀ row ∈ s.shared.subscriptions, Ours σ row → ∀ t ∈ marker parseDate row,
      ∃ row' ∈ s'.shared.subscriptions, row'.id = row.id ∧
        ∃ t' ∈ marker parseDate row', t ≤ t' := by
  intro row hrow hours t ht
  have hstay : s'.shared.subscriptions = s.shared.subscriptions →
      ∃ row' ∈ s'.shared.subscriptions, row'.id = row.id ∧
        ∃ t' ∈ marker parseDate row', t ≤ t' := by
    intro hsame
    rw [hsame]
    exact ⟨row, hrow, rfl, t, ht, Int.le_refl t⟩
  rcases act_cases h with ⟨request, rfl, rfl⟩ | ⟨i, choice, call, db', call', rfl, hcall, hmove, rfl⟩
  · exact hstay rfl
  obtain ⟨⟨db'', phase⟩, hadvance, hr⟩ := Option.map_eq_some_iff.mp hmove
  cases hr
  obtain ⟨hpremise, hcareful⟩ := hsteady call hcall
  cases advance_moved hinv.consistent hinv.fresh Iff.rfl (hinv.each i call hcall) hpremise
    hcareful hadvance with
  | threw error hrows hsnapshots => exact hstay hrows
  | read _ hrows hsnapshots happlied hwriting hown => exact hstay hrows
  | wrote input record hwrote hown =>
    obtain ⟨t', ht', hle⟩ := hwrote.marker row hrow hours t ht
    refine ⟨record, (hwrote.written.rows record).mpr (.inl rfl), ?_, t', ht', hle⟩
    by_contra hne
    exact hwrote.alone row hrow (fun hid => hne hid.symm) hours
  | snapped account plan record existing hwriting hwrites hnewer hsnapped =>
    exact hstay hsnapped.rows

/-- After any steady run of deliveries and syncs, once all calls have finished, the row of the
subscription says what the latest event said, its marker has never gone back on the way, and the
snapshot of the account is the one of that row. -/
theorem events_converge {db : Tables} (hdb : Consistent db)
    (hunique : ∀ row ∈ db.subscriptions, ∀ other ∈ db.subscriptions, Ours σ row →
      Ours σ other → row = other)
    (hold : ∀ row ∈ db.subscriptions, Ours σ row → Old σ row)
    {acts : List (Act Request Choice)} {s : Deployment}
    (hsteady : Guarded (deploymentStep catalog parseDate) (Steady σ) ⟨db, []⟩ acts)
    (hrun : run (deploymentStep catalog parseDate) ⟨db, []⟩ acts = some s)
    (hdone : ∀ call ∈ s.procs, ∃ subscription, call.phase = .finished subscription)
    (hlatest : ∃ call ∈ s.procs, isLatest σ call.request) :
    (∃ row ∈ s.shared.subscriptions, Ours σ row ∧
      (∀ other ∈ s.shared.subscriptions, Ours σ other → other = row) ∧
      ByLatest σ catalog row ∧ ∃ e, findEntitlementSnapshot s.shared row.billingAccountId = some e ∧
        SnapshotOf catalog row e) ∧
    ∀ before a after m m', acts = before ++ a :: after →
      run (deploymentStep catalog parseDate) ⟨db, []⟩ before = some m →
      deploymentStep catalog parseDate m a = some m' →
      ∀ row ∈ m.shared.subscriptions, Ours σ row → ∀ t ∈ marker parseDate row,
        ∃ row' ∈ m'.shared.subscriptions, row'.id = row.id ∧
          ∃ t' ∈ marker parseDate row', t ≤ t' := by
  have hstart : Inv σ catalog db ⟨db, []⟩ :=
    ⟨hdb, hunique, fun _ => hold, each_nil _ _, fun call hcall => absurd hcall (by simp),
      fun row hrow _ => .inl hrow⟩
  refine ⟨?_, ?_⟩
  · have hinv : Inv σ catalog db s := guarded_run_invariant _ inv_step hstart hsteady hrun
    obtain ⟨call, hcall, hcallLatest⟩ := hlatest
    have happlied : Applied call.phase := by
      obtain ⟨subscription, hphase⟩ := hdone call hcall
      rw [hphase]
      trivial
    obtain ⟨row, hrow, hours, hby⟩ := hinv.settled call hcall hcallLatest happlied
    refine ⟨row, hrow, hours, fun other hother hours' => hinv.unique other hother row hrow hours'
      hours, hby, ?_⟩
    rcases hinv.snapshot row hrow hours with hinitial | hd | ⟨c, hc, hw⟩ | ⟨c, hc, error, he⟩
    · exact absurd (hold row hinitial hours) (not_old_of_byLatest hby)
    · exact hd
    · obtain ⟨subscription, hphase⟩ := hdone c hc
      rw [hphase] at hw
      cases hw
    · obtain ⟨subscription, hphase⟩ := hdone c hc
      rw [hphase] at he
      cases he
  · intro before a after m m' hacts hbefore hstep
    subst hacts
    obtain ⟨hguard, hnext⟩ := guarded_append _ hsteady hbefore
    exact marker_step (guarded_run_invariant _ inv_step hstart hguard hbefore) hnext.1 hstep

end Runs

section Samples

def proPlan : BillFnPlanDefinition := ⟨"pro", [("sync", true)], [("storage", 10)],
  [⟨"pro_month", "dodo", "prod_1"⟩]⟩

def teamPlan : BillFnPlanDefinition := ⟨"team", [("sync", true)], [("storage", 50)],
  [⟨"team_month", "dodo", "prod_2"⟩]⟩

def subscribed : BillFnSubscription :=
  ⟨"sub_1", "acct", "pro", "pro_month", "dodo", some "ref_1", none, none, .trialing, none, none,
    true, none, 0, 0, none, none, none⟩

def oneSubscription : Tables := ⟨["acct"], [subscribed], [], [], []⟩

def reported (status : SubscriptionStatus) : BillFnVerifiedBillingState :=
  ⟨status, "succeeded", some "ref_1", none, none, none, none, none⟩

def activated : BillFnParsedWebhookEvent :=
  ⟨"evt_1", "subscription.active", some "10", none, none, some (reported .active)⟩

def overdue : BillFnParsedWebhookEvent :=
  ⟨"evt_2", "subscription.on_hold", some "20", some "prod_2", none, some (reported .past_due)⟩

def sampleSeries : Series fun _ => none where
  provider := "dodo"
  ref := "ref_1"
  events := [activated, overdue]
  latest := overdue
  instant := fun e => if e = overdue then 20000 else 10000
  named := by decide
  dated := by
    intro e he
    rcases List.mem_pair.mp he with rfl | rfl
    · exact ⟨"10", rfl, by decide, by decide⟩
    · exact ⟨"20", rfl, by decide, by decide⟩
  about := by
    intro e he
    rcases List.mem_pair.mp he with rfl | rfl
    · exact ⟨_, rfl, rfl⟩
    · exact ⟨_, rfl, rfl⟩
  apart := by decide +kernel
  member := by decide
  last := by decide

def sampleStep : Deployment → Act Request Choice → Option Deployment :=
  deploymentStep [proPlan, teamPlan] fun _ => none

def deliver (event : BillFnParsedWebhookEvent) : Act Request Choice :=
  .spawn (.processParsedWebhookEvent "dodo" event)

def moves (count i : Nat) (now : Int) : List (Act Request Choice) :=
  List.replicate count (.move i ⟨now, "sub_2", false, .state (reported .active)⟩)

/-- A sync reads the row and asks its provider, the latest event is processed, and then the sync
writes what it was told. -/
def lateSync : List (Act Request Choice) :=
  .spawn (.syncSubscriptionById "sub_1") :: moves 2 0 1 ++ deliver overdue :: moves 7 1 2 ++
    moves 5 0 3

/-- The answer that is older than the event stands, and the marker is gone. -/
theorem lateSync_overwrites :
    (run sampleStep ⟨oneSubscription, []⟩ lateSync).map (fun s =>
      (s.shared.subscriptions.map fun row => (row.status, row.planKey, lastOccurredAt row),
        s.procs.map fun call => match call.phase with
          | .finished _ => true
          | _ => false)) = some ([(.active, "pro", none)], [true, true]) := by
  decide +kernel

/-- A sync, the two events at once, the older one written first and its snapshot last, and the
latest event once more. -/
def interleaved : List (Act Request Choice) :=
  .spawn (.syncSubscriptionById "sub_1") :: moves 7 0 1 ++ deliver activated :: deliver overdue ::
    moves 2 1 2 ++ moves 2 2 2 ++ moves 2 1 3 ++ moves 7 2 4 ++ moves 2 1 5 ++
    deliver overdue :: moves 7 3 6

theorem interleaved_converges :
    ∃ s, run sampleStep ⟨oneSubscription, []⟩ interleaved = some s ∧
      ∃ row ∈ s.shared.subscriptions, row.status = .past_due ∧ row.planKey = "team" ∧
        ∃ e, findEntitlementSnapshot s.shared row.billingAccountId = some e ∧
          SnapshotOf [proPlan, teamPlan] row e := by
  have hsteady : Guarded sampleStep (Steady sampleSeries) ⟨oneSubscription, []⟩ interleaved := by
    decide +kernel
  have hends : (run sampleStep ⟨oneSubscription, []⟩ interleaved).any (fun s =>
      (s.procs.all fun call => match call.phase with
        | .finished _ => true
        | _ => false) &&
      s.procs.any fun call => decide (isLatest sampleSeries call.request)) = true := by
    decide +kernel
  obtain ⟨s, hrun, hend⟩ := (Option.any_eq_true _ _).mp hends
  rw [Bool.and_eq_true, all_eq_true, any_eq_true] at hend
  have hdone : ∀ call ∈ s.procs, ∃ subscription, call.phase = .finished subscription := by
    intro call hcall
    have hphase := hend.1 call hcall
    split at hphase
    · rename_i subscription hfinished
      exact ⟨subscription, hfinished⟩
    · cases hphase
  have hlatest : ∃ call ∈ s.procs, isLatest sampleSeries call.request := by
    obtain ⟨call, hcall, his⟩ := hend.2
    exact ⟨call, hcall, of_decide_eq_true his⟩
  have hdb : Consistent oneSubscription :=
    ⟨by decide, by decide, fun e he => absurd he (by simp [oneSubscription]),
      fun e he => absurd he (by simp [oneSubscription])⟩
  have hunique : ∀ row ∈ oneSubscription.subscriptions, ∀ other ∈ oneSubscription.subscriptions,
      Ours sampleSeries row → Ours sampleSeries other → row = other := by decide
  have hold : ∀ row ∈ oneSubscription.subscriptions, Ours sampleSeries row →
      Old sampleSeries row := by decide
  obtain ⟨⟨row, hrow, -, -, hby, hsnapshot⟩, -⟩ :=
    events_converge hdb hunique hold hsteady hrun hdone hlatest
  obtain ⟨state, hstate, hstatus, hprice⟩ := hby.told
  have hreported : reported .past_due = state := Option.some.inj hstate
  subst hreported
  have hnamed : eventPrice [proPlan, teamPlan] sampleSeries.provider sampleSeries.latest
      (reported .past_due) = some (teamPlan, ⟨"team_month", "dodo", "prod_2"⟩) := by
    decide +kernel
  exact ⟨s, hrun, row, hrow, hstatus, (hprice _ _ hnamed).1, hsnapshot⟩

end Samples

end SuperFunctions.Billfn.EventsConverge
