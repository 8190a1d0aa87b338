import SuperFunctions.Authfn.TwoFactor

/-!
# Single use of the second factors

A run is steady when nothing that a call has read changes before the call writes on the strength of
it. In a steady run recovery codes, counters and challenges are used once, and an enrollment is
confirmed by a code of its own secret. Two calls that read a recovery code together both accept it.
-/
namespace SuperFunctions.Authfn.TwoFactorRuns

open Lib.Processes Lib.Transition TwoFactor List Option

variable {H : Type}

section Guard

/-- What a call writes on still stands as the call has read it. -/
def Steady (s : Service H) : Act Request Choice → Bool
  | .spawn _ => true
  | .move i c => c.fails || match s.procs[i]? with
    | none => true
    | some call => match call.phase with
      | .markingCode _ matched _ =>
        s.shared.recoveryCodes.all fun row => row.id ≠ matched.id || row.usedAt.isNone
      | .claiming _ secret _ enrollment _ _ => s.shared.enrollment.all fun row =>
        row.id ≠ enrollment.id || row.lastUsedCounter ≠ enrollment.lastUsedCounter ||
          row.secret = secret
      | .accepted (.confirm enrollment) => s.shared.enrollment.all fun row =>
        row.id ≠ enrollment.id || row.secret = enrollment.secret
      | .accepted (.satisfy challenge _) => s.shared.challenges.all fun row =>
        row.id ≠ challenge.id || (row.consumedAt.isNone && c.at_ < row.expiresAt)
      | _ => true

end Guard

/-- The recovery codes: an accepted one is marked, and its id is not drawn again. -/
structure CodesOk (store : Store H) : Prop where
  once : store.usedCodes.Nodup
  drawn : ∀ id ∈ store.usedCodes, id ∈ store.drawn
  rows : ∀ row ∈ store.recoveryCodes, row.id ∈ store.drawn
  marked : ∀ row ∈ store.recoveryCodes, row.id ∈ store.usedCodes → row.usedAt.isSome = true

/-- The counters: those of a secret increase, and the row with the secret has the last one. -/
structure CountersOk (store : Store H) : Prop where
  increasing : store.counters.Pairwise fun newer older =>
    newer.1 = older.1 → older.2 < newer.2
  drawn : ∀ p ∈ store.counters, p.1 ∈ store.drawn
  row : ∀ row, store.enrollment = some row → row.secret ∈ store.drawn ∧
    ∀ p ∈ store.counters, p.1 = row.secret → ∃ last, row.lastUsedCounter = some last ∧ p.2 ≤ last

/-- The challenges: a satisfied one is marked, in time, and its id is not drawn again. -/
structure ChallengesOk (store : Store H) : Prop where
  once : (store.satisfied.map (·.id)).Nodup
  drawn : ∀ s ∈ store.satisfied, s.id ∈ store.drawn
  rows : ∀ row ∈ store.challenges, row.id ∈ store.drawn
  marked : ∀ row ∈ store.challenges, ∀ s ∈ store.satisfied, row.id = s.id →
    row.consumedAt.isSome = true
  inTime : ∀ s ∈ store.satisfied, s.at_ < s.expiresAt

/-- A confirmed enrollment was confirmed by a code of the secret it stores. -/
structure ConfirmedOk (config : Config H) (store : Store H) : Prop where
  codes : ∀ c ∈ store.confirmations, ∃ counter,
    config.totp c.secret counter = normalizeTwoFactorCode config c.code
  row : ∀ row, store.enrollment = some row → row.confirmedAt.isSome = true →
    ∃ code, ⟨code, row.secret⟩ ∈ store.confirmations

structure TablesOk (config : Config H) (store : Store H) : Prop where
  codes : CodesOk store
  counters : CountersOk store
  challenges : ChallengesOk store
  confirmed : ConfirmedOk config store

/-- The secret that a goal is about to confirm. -/
def confirms : Goal → Option String
  | .confirm enrollment => some enrollment.secret
  | _ => none

/-- What a call knows by itself. -/
def PhaseOk (config : Config H) (code : String) : Phase H → Prop
  | .findingCodes goal _ _ | .markingCode goal _ _ => confirms goal = none
  | .claiming goal secret _ enrollment counter _ =>
    (∀ last, enrollment.lastUsedCounter = some last → last < counter) ∧
      config.totp secret counter = normalizeTwoFactorCode config code ∧
      ∀ confirmed, confirms goal = some confirmed → confirmed = secret
  | .rereading goal secret _ _ => ∀ confirmed, confirms goal = some confirmed → confirmed = secret
  | .accepted goal => ∀ confirmed, confirms goal = some confirmed → ∃ counter,
    config.totp confirmed counter = normalizeTwoFactorCode config code
  | _ => True

variable {now counter : Int}

section Writes

variable {config : Config H} {store : Store H}

theorem tables_draw (h : TablesOk config store) (value : String) :
    TablesOk config (store.draw value) where
  codes := ⟨h.codes.once, fun id hid => mem_cons_of_mem _ (h.codes.drawn id hid),
    fun row hrow => mem_cons_of_mem _ (h.codes.rows row hrow), h.codes.marked⟩
  counters := ⟨h.counters.increasing, fun p hp => mem_cons_of_mem _ (h.counters.drawn p hp),
    fun row hrow => ⟨mem_cons_of_mem _ (h.counters.row row hrow).1, (h.counters.row row hrow).2⟩⟩
  challenges := { h.challenges with
      drawn := fun s hs => mem_cons_of_mem _ (h.challenges.drawn s hs)
      rows := fun row hrow => mem_cons_of_mem _ (h.challenges.rows row hrow) }
  confirmed := ⟨h.confirmed.codes, h.confirmed.row⟩

variable {row : AuthFnTwoFactorEnrollmentRecord}

theorem tables_enrolled (h : TablesOk config store) (hdrawn : row.secret ∈ store.drawn)
    (hnew : ∀ p ∈ store.counters, p.1 ≠ row.secret) (hunconfirmed : row.confirmedAt = none) :
    TablesOk config { store with enrollment := some row } where
  codes := { h.codes with }
  counters := by
    refine { h.counters with row := ?_ }
    intro row' hrow'
    cases hrow'
    exact ⟨hdrawn, fun p hp hsame => (hnew p hp hsame).elim⟩
  challenges := { h.challenges with }
  confirmed := by
    refine ⟨h.confirmed.codes, ?_⟩
    intro row' hrow' hconfirmed
    cases hrow'
    rw [hunconfirmed] at hconfirmed
    cases hconfirmed

theorem not_drawn_of_fresh {value : String} (h : fresh store value = true) :
    value ∉ store.drawn := by
  simpa [fresh] using h

theorem tables_newSecret (row : AuthFnTwoFactorEnrollmentRecord) (h : TablesOk config store)
    (hfresh : fresh store row.secret = true) (hunconfirmed : row.confirmedAt = none) :
    TablesOk config { store.draw row.secret with enrollment := some row } := by
  apply tables_enrolled (tables_draw h row.secret) mem_cons_self _ hunconfirmed
  intro p hp hsame
  exact not_drawn_of_fresh hfresh (hsame ▸ h.counters.drawn p hp)

theorem tables_purged (h : TablesOk config store)
    (keep : AuthFnTwoFactorRecoveryCodeRecord H → Bool) :
    TablesOk config { store with recoveryCodes := store.recoveryCodes.filter keep } where
  codes := ⟨h.codes.once, h.codes.drawn,
    fun row hrow => h.codes.rows row (mem_of_mem_filter hrow),
    fun row hrow => h.codes.marked row (mem_of_mem_filter hrow)⟩
  counters := { h.counters with }
  challenges := { h.challenges with }
  confirmed := ⟨h.confirmed.codes, h.confirmed.row⟩

theorem tables_issued (row : AuthFnTwoFactorRecoveryCodeRecord H) (h : TablesOk config store)
    (hfresh : fresh store row.id = true) :
    TablesOk config { store.draw row.id with recoveryCodes := store.recoveryCodes ++ [row] } := by
  have hdrawn := tables_draw h row.id
  refine ⟨⟨h.codes.once, hdrawn.codes.drawn, ?_, ?_⟩,
    { hdrawn.counters with increasing := h.counters.increasing },
    { h.challenges with
        drawn := hdrawn.challenges.drawn
        rows := hdrawn.challenges.rows }, ⟨h.confirmed.codes, h.confirmed.row⟩⟩
  · intro other hother
    rcases mem_append.mp hother with hold | hnew
    · exact hdrawn.codes.rows other hold
    · cases mem_singleton.mp hnew
      exact mem_cons_self
  · intro other hother hused
    rcases mem_append.mp hother with hold | hnew
    · exact h.codes.marked other hold hused
    · cases mem_singleton.mp hnew
      exact (not_drawn_of_fresh hfresh (h.codes.drawn _ hused)).elim

theorem tables_challenged (row : AuthFnTwoFactorChallengeRecord) (h : TablesOk config store)
    (hfresh : fresh store row.id = true) :
    TablesOk config { store.draw row.id with challenges := store.challenges ++ [row] } := by
  have hdrawn := tables_draw h row.id
  refine ⟨⟨h.codes.once, hdrawn.codes.drawn, hdrawn.codes.rows, h.codes.marked⟩,
    { hdrawn.counters with increasing := h.counters.increasing },
    ⟨h.challenges.once, hdrawn.challenges.drawn, ?_, ?_, h.challenges.inTime⟩,
    ⟨h.confirmed.codes, h.confirmed.row⟩⟩
  · intro other hother
    rcases mem_append.mp hother with hold | hnew
    · exact hdrawn.challenges.rows other hold
    · cases mem_singleton.mp hnew
      exact mem_cons_self
  · intro other hother s hs hid
    rcases mem_append.mp hother with hold | hnew
    · exact h.challenges.marked other hold s hs hid
    · cases mem_singleton.mp hnew
      exact (not_drawn_of_fresh hfresh (hid ▸ h.challenges.drawn s hs)).elim

section

variable (h : TablesOk config store)
include h

theorem tables_marked {id : String} (hrow : ∃ row ∈ store.recoveryCodes, row.id = id)
    (hunused : ∀ row ∈ store.recoveryCodes, row.id = id → row.usedAt = none) :
    TablesOk config { store with
      recoveryCodes := store.recoveryCodes.map fun row =>
        if row.id = id then { row with usedAt := some now } else row
      usedCodes := id :: store.usedCodes } := by
  obtain ⟨found, hfound, hfoundId⟩ := hrow
  have hids : ∀ row ∈ store.recoveryCodes.map (fun row =>
      if row.id = id then { row with usedAt := some now } else row),
      ∃ old ∈ store.recoveryCodes, row.id = old.id ∧
        (old.id = id → row.usedAt.isSome = true) ∧ (old.id ≠ id → row = old) := by
    refine forall_mem_map.mpr fun old hold => ?_
    by_cases hid : old.id = id
    · rw [if_pos hid]
      exact ⟨old, hold, rfl, fun _ => rfl, fun hne => (hne hid).elim⟩
    · rw [if_neg hid]
      exact ⟨old, hold, rfl, fun heq => (hid heq).elim, fun _ => rfl⟩
  have hnot : id ∉ store.usedCodes := by
    intro hused
    have hmarked := h.codes.marked found hfound (hfoundId.symm ▸ hused)
    rw [hunused found hfound hfoundId] at hmarked
    cases hmarked
  refine ⟨⟨nodup_cons.mpr ⟨hnot, h.codes.once⟩, ?_, ?_, ?_⟩,
    { h.counters with },
    { h.challenges with }, ⟨h.confirmed.codes, h.confirmed.row⟩⟩
  · intro other hother
    rcases mem_cons.mp hother with rfl | hold
    · exact hfoundId ▸ h.codes.rows found hfound
    · exact h.codes.drawn other hold
  · intro row hrow
    obtain ⟨old, hold, hid, -⟩ := hids row hrow
    rw [hid]
    exact h.codes.rows old hold
  · intro row hrow hused
    obtain ⟨old, hold, hid, hmarked, hkept⟩ := hids row hrow
    by_cases hsame : old.id = id
    · exact hmarked hsame
    · rw [hkept hsame] at hused ⊢
      rcases mem_cons.mp hused with heq | hbefore
      · exact (hsame heq).elim
      · exact h.codes.marked old hold hbefore

theorem tables_claimed (hrow : store.enrollment = some row)
    (hafter : ∀ last, row.lastUsedCounter = some last → last < counter) :
    TablesOk config { store with
      enrollment := some { row with lastUsedCounter := some counter }
      counters := (row.secret, counter) :: store.counters } := by
  obtain ⟨hdrawn, hlast⟩ := h.counters.row row hrow
  have hbelow : ∀ p ∈ store.counters, p.1 = row.secret → p.2 < counter := by
    intro p hp hsame
    obtain ⟨last, hlastEq, hle⟩ := hlast p hp hsame
    exact Int.lt_of_le_of_lt hle (hafter last hlastEq)
  refine ⟨{ h.codes with }, ⟨?_, ?_, ?_⟩,
    { h.challenges with }, ⟨h.confirmed.codes, ?_⟩⟩
  · refine pairwise_cons.mpr ⟨?_, h.counters.increasing⟩
    intro p hp hsame
    exact hbelow p hp hsame.symm
  · intro p hp
    rcases mem_cons.mp hp with rfl | hold
    · exact hdrawn
    · exact h.counters.drawn p hold
  · intro row' hrow'
    cases hrow'
    refine ⟨hdrawn, fun p hp hsame => ⟨counter, rfl, ?_⟩⟩
    rcases mem_cons.mp hp with rfl | hold
    · exact Int.le_refl _
    · exact Int.le_of_lt (hbelow p hold hsame)
  · intro row' hrow' hconfirmed
    cases hrow'
    exact h.confirmed.row row hrow hconfirmed

theorem tables_confirmed {code : String} (hrow : store.enrollment = some row)
    (hcode : ∃ counter, config.totp row.secret counter = normalizeTwoFactorCode config code) :
    TablesOk config { store with
      enrollment := some { row with confirmedAt := some now }
      confirmations := ⟨code, row.secret⟩ :: store.confirmations } := by
  obtain ⟨hdrawn, hlast⟩ := h.counters.row row hrow
  refine ⟨{ h.codes with },
    { h.counters with row := ?_ },
    { h.challenges with }, ⟨?_, ?_⟩⟩
  · intro row' hrow'
    cases hrow'
    exact ⟨hdrawn, hlast⟩
  · intro c hc
    rcases mem_cons.mp hc with rfl | hold
    · exact hcode
    · exact h.confirmed.codes c hold
  · intro row' hrow' _
    cases hrow'
    exact ⟨code, mem_cons_self⟩

theorem tables_satisfied {row : AuthFnTwoFactorChallengeRecord} {time : Int}
    (hrow : row ∈ store.challenges) (hlive : ∀ other ∈ store.challenges, other.id = row.id →
      other.consumedAt = none ∧ time < other.expiresAt) :
    TablesOk config { store with
      challenges := store.challenges.map fun other =>
        if other.id = row.id then { other with consumedAt := some now } else other
      satisfied := ⟨row.id, time, row.expiresAt⟩ :: store.satisfied } := by
  have hnot : row.id ∉ store.satisfied.map (·.id) := by
    intro hmem
    obtain ⟨s, hs, hid⟩ := mem_map.mp hmem
    have hmarked := h.challenges.marked row hrow s hs hid.symm
    rw [(hlive row hrow rfl).1] at hmarked
    cases hmarked
  refine ⟨{ h.codes with },
    { h.counters with }, ⟨?_, ?_, ?_, ?_, ?_⟩,
    ⟨h.confirmed.codes, h.confirmed.row⟩⟩
  · exact nodup_cons.mpr ⟨hnot, h.challenges.once⟩
  · intro s hs
    rcases mem_cons.mp hs with rfl | hold
    · exact h.challenges.rows row hrow
    · exact h.challenges.drawn s hold
  · refine forall_mem_map.mpr fun old hold => ?_
    have hid : (if old.id = row.id then { old with consumedAt := some now } else old).id =
        old.id := by split <;> rfl
    rw [hid]
    exact h.challenges.rows old hold
  · intro other hother s hs hid
    obtain ⟨old, hold, rfl⟩ := mem_map.mp hother
    by_cases hsame : old.id = row.id
    · rw [if_pos hsame]
      rfl
    · rw [if_neg hsame] at hid ⊢
      rcases mem_cons.mp hs with rfl | holdS
      · exact (hsame hid).elim
      · exact h.challenges.marked old hold s holdS hid
  · intro s hs
    rcases mem_cons.mp hs with rfl | hold
    · exact (hlive row hrow rfl).2
    · exact h.challenges.inTime s hold

theorem tables_disabled :
    TablesOk config { store with enrollment := none } where
  codes := { h.codes with }
  counters := { h.counters with row := fun _ hrow => nomatch hrow }
  challenges := { h.challenges with }
  confirmed := ⟨h.confirmed.codes, fun _ hrow => nomatch hrow⟩

theorem tables_unchallenged :
    TablesOk config { store with challenges := [] } where
  codes := { h.codes with }
  counters := { h.counters with }
  challenges := { h.challenges with rows := forall_mem_nil _, marked := forall_mem_nil _ }
  confirmed := ⟨h.confirmed.codes, h.confirmed.row⟩

end

end Writes

section Steps

variable [DecidableEq H] {config : Config H} {store store' : Store H} {phase phase' : Phase H}
  {c : Choice} {code : String}

/-- What a step leaves. -/
structure Sound (config : Config H) (code : String) (store' : Store H) (phase' : Phase H) :
    Prop where
  tables : TablesOk config store'
  phase : PhaseOk config code phase'

omit [DecidableEq H] in
theorem verifyTotpCode_spec {secret text : String} {last : Option Int}
    (h : verifyTotpCode config secret text now last = some counter) :
    (∀ used, last = some used → used < counter) ∧ config.totp secret counter = text := by
  have hfound := find?_some h
  simp only [Bool.and_eq_true, decide_eq_true_eq] at hfound
  refine ⟨?_, hfound.2⟩
  intro used hused
  simpa [hused] using hfound.1

omit [DecidableEq H] in
theorem tryTotp_ok {goal : Goal} {secret : String} {enrollment : AuthFnTwoFactorEnrollmentRecord}
    {retried : Bool} (hgoal : ∀ confirmed, confirms goal = some confirmed → confirmed = secret) :
    PhaseOk config code (tryTotp (H := H) config code goal secret now enrollment retried) := by
  unfold tryTotp
  split
  · trivial
  · rename_i counter hcounter
    obtain ⟨hafter, htotp⟩ := verifyTotpCode_spec hcounter
    exact ⟨hafter, htotp, hgoal⟩

/-- The guard at a phase, for the store in which the step is taken. -/
def SteadyAt (store : Store H) (c : Choice) : Phase H → Prop
  | .markingCode _ matched _ => ∀ row ∈ store.recoveryCodes, row.id = matched.id →
    row.usedAt = none
  | .claiming _ secret _ enrollment _ _ => ∀ row, store.enrollment = some row →
    row.id = enrollment.id → row.lastUsedCounter = enrollment.lastUsedCounter →
    row.secret = secret
  | .accepted (.confirm enrollment) => ∀ row, store.enrollment = some row →
    row.id = enrollment.id → row.secret = enrollment.secret
  | .accepted (.satisfy challenge _) => ∀ row ∈ store.challenges, row.id = challenge.id →
    row.consumedAt = none ∧ c.at_ < row.expiresAt
  | _ => True

omit [DecidableEq H] in
theorem steadyAt_of_steady {s : Service H} {i : Nat} {call : Call H}
    (hcall : s.procs[i]? = some call) (hworks : c.fails = false)
    (h : Steady s (.move i c) = true) : SteadyAt s.shared c call.phase := by
  simp only [Steady, hworks, hcall, Bool.false_or] at h
  cases hphase : call.phase with
  | markingCode goal matched now =>
    simp only [hphase, List.all_eq_true, Bool.or_eq_true, decide_eq_true_eq,
      Option.isNone_iff_eq_none] at h
    intro row hrow hid
    exact (h row hrow).resolve_left fun hne => hne hid
  | claiming goal secret now enrollment counter retried =>
    simp only [hphase, Option.all_eq_true, Bool.or_eq_true, decide_eq_true_eq] at h
    intro row hrow hid hlast
    rcases h row hrow with (hne | hne) | hsame
    · exact (hne hid).elim
    · exact (hne hlast).elim
    · exact hsame
  | accepted goal =>
    cases goal with
    | confirm enrollment =>
      simp only [hphase, Option.all_eq_true, Bool.or_eq_true, decide_eq_true_eq] at h
      intro row hrow hid
      exact (h row hrow).resolve_left fun hne => hne hid
    | satisfy challenge now =>
      simp only [hphase, List.all_eq_true, Bool.or_eq_true, Bool.and_eq_true, decide_eq_true_eq,
        Option.isNone_iff_eq_none] at h
      intro row hrow hid
      exact (h row hrow).resolve_left fun hne => hne hid
    | _ => trivial
  | _ => trivial

theorem checkCode_sound (h : TablesOk config store) (hphase : PhaseOk config code phase)
    (hsteady : SteadyAt store c phase)
    (hstep : checkCode config store code phase c = some (store', phase')) :
    Sound config code store' phase' := by
  cases phase with
  | findingCodes goal enrollment now =>
    have hgoal : confirms goal = none := hphase
    simp only [checkCode] at hstep
    split at hstep
    · cases hstep
      exact ⟨h, hgoal⟩
    · cases hstep
      refine ⟨h, tryTotp_ok ?_⟩
      intro confirmed hconfirmed
      cases hgoal.symm.trans hconfirmed
  | markingCode goal matched now =>
    have hgoal : confirms goal = none := hphase
    simp only [checkCode] at hstep
    split at hstep
    · rename_i hany
      cases hstep
      obtain ⟨row, hrow, hid⟩ := any_eq_true.mp hany
      refine ⟨tables_marked h ⟨row, hrow, of_decide_eq_true hid⟩ hsteady, ?_⟩
      intro confirmed hconfirmed
      cases hgoal.symm.trans hconfirmed
    · cases hstep
      exact ⟨h, trivial⟩
  | claiming goal secret now enrollment counter retried =>
    obtain ⟨hafter, htotp, hgoal⟩ := hphase
    simp only [checkCode] at hstep
    split at hstep
    · cases hstep
      exact ⟨h, hgoal⟩
    rename_i row hrow
    split at hstep
    · rename_i hmatches
      cases hstep
      have hsecret : row.secret = secret := hsteady row hrow hmatches.1 hmatches.2
      rw [← hsecret] at htotp ⊢
      refine ⟨tables_claimed h hrow (hmatches.2 ▸ hafter), ?_⟩
      intro confirmed hconfirmed
      rw [hgoal confirmed hconfirmed, ← hsecret]
      exact ⟨counter, htotp⟩
    · cases hstep
      exact ⟨h, hgoal⟩
  | rereading goal secret now retried =>
    simp only [checkCode] at hstep
    split at hstep
    · cases hstep
      exact ⟨h, trivial⟩
    split at hstep
    · cases hstep
      exact ⟨h, trivial⟩
    · cases hstep
      exact ⟨h, tryTotp_ok hphase⟩
  | accepted goal =>
    cases goal with
    | confirm enrollment =>
      simp only [checkCode] at hstep
      split at hstep
      · cases hstep
        exact ⟨h, trivial⟩
      rename_i row hrow
      split at hstep
      · cases hstep
        exact ⟨h, trivial⟩
      rename_i hid
      cases hstep
      have hsecret : row.secret = enrollment.secret := hsteady row hrow (not_not.mp hid)
      refine ⟨tables_confirmed h hrow ?_, trivial⟩
      rw [hsecret]
      exact hphase enrollment.secret rfl
    | satisfy challenge now =>
      simp only [checkCode] at hstep
      split at hstep
      · cases hstep
        exact ⟨h, trivial⟩
      rename_i row hfound
      cases hstep
      have hid : row.id = challenge.id := by simpa using find?_some hfound
      rw [← hid]
      exact ⟨tables_satisfied h (mem_of_find?_eq_some hfound) (hid ▸ hsteady), trivial⟩
    | verify =>
      cases hstep
      exact ⟨h, trivial⟩
    | disable enrollmentId =>
      simp only [checkCode] at hstep
      split at hstep
      · cases hstep
        exact ⟨tables_disabled h, trivial⟩
      · cases hstep
        exact ⟨h, trivial⟩
  | droppingCodes enrollmentId =>
    cases hstep
    exact ⟨tables_purged h _, trivial⟩
  | droppingChallenges =>
    cases hstep
    exact ⟨tables_unchallenged h, trivial⟩
  | _ => cases hstep

theorem create_sound (h : TablesOk config store)
    (hstep : createTwoFactorEnrollment config store phase c = some (store', phase')) :
    Sound config code store' phase' := by
  cases phase with
  | entered =>
    simp only [createTwoFactorEnrollment] at hstep
    split at hstep
    · cases hstep
      exact ⟨h, trivial⟩
    split at hstep
    · cases hstep
      exact ⟨h, trivial⟩
    · cases hstep
      exact ⟨h, trivial⟩
  | replacing existing =>
    simp only [createTwoFactorEnrollment] at hstep
    split at hstep
    · cases hstep
      exact ⟨h, trivial⟩
    rename_i row _
    split at hstep
    · cases hstep
      exact ⟨h, trivial⟩
    split at hstep
    · cases hstep
    rename_i hfresh
    cases hstep
    have hnew : fresh store c.secret = true := by simpa using hfresh
    have hreplaced := tables_newSecret
      { row with secret := c.secret, lastUsedCounter := none, confirmedAt := none } h hnew rfl
    exact ⟨hreplaced, trivial⟩
  | purging enrollmentId =>
    cases hstep
    exact ⟨tables_purged h _, trivial⟩
  | inserting =>
    simp only [createTwoFactorEnrollment] at hstep
    split at hstep
    · cases hstep
      exact ⟨h, trivial⟩
    split at hstep
    · cases hstep
    rename_i hfresh
    cases hstep
    simp only [Bool.or_eq_true, Bool.not_eq_true', not_or, Bool.not_eq_false] at hfresh
    have hinserted := tables_newSecret ⟨c.id, c.secret, none, none⟩ h hfresh.1 rfl
    exact ⟨tables_draw hinserted c.id, trivial⟩
  | issuing enrollmentId count =>
    cases count with
    | zero =>
      cases hstep
      exact ⟨h, trivial⟩
    | succ count =>
      simp only [createTwoFactorEnrollment] at hstep
      split at hstep
      · cases hstep
        exact ⟨h, trivial⟩
      split at hstep
      · cases hstep
      rename_i hfresh
      cases hstep
      have hnew : fresh store c.id = true := by simpa using hfresh
      have hissued := tables_issued ⟨c.id, enrollmentId,
        config.hashSecret (normalizeTwoFactorCode config c.recoveryCode), none⟩ h hnew
      exact ⟨hissued, trivial⟩
  | _ => cases hstep

omit [DecidableEq H] in
theorem challenge_sound (h : TablesOk config store)
    (hstep : createTwoFactorChallenge config store phase c = some (store', phase')) :
    Sound config code store' phase' := by
  cases phase with
  | entered =>
    simp only [createTwoFactorChallenge] at hstep
    split at hstep
    · cases hstep
      exact ⟨h, trivial⟩
    · cases hstep
      exact ⟨h, trivial⟩
  | creating =>
    simp only [createTwoFactorChallenge] at hstep
    split at hstep
    · cases hstep
    rename_i hfresh
    cases hstep
    have hnew : fresh store c.id = true := by simpa using hfresh
    have hcreated := tables_challenged ⟨c.id, c.now + config.challengeTtl, none⟩ h hnew
    exact ⟨hcreated, trivial⟩
  | _ => cases hstep

theorem confirm_sound (h : TablesOk config store) (hphase : PhaseOk config code phase)
    (hsteady : SteadyAt store c phase)
    (hstep : confirmTwoFactorEnrollment config store code phase c = some (store', phase')) :
    Sound config code store' phase' := by
  unfold confirmTwoFactorEnrollment at hstep
  split at hstep
  · split at hstep
    · cases hstep
      exact ⟨h, trivial⟩
    split at hstep
    · cases hstep
      exact ⟨h, trivial⟩
    · cases hstep
      refine ⟨h, tryTotp_ok ?_⟩
      intro confirmed hconfirmed
      exact (some.inj hconfirmed).symm
  · exact checkCode_sound h hphase hsteady hstep

theorem satisfy_sound {challengeId : String} (h : TablesOk config store)
    (hphase : PhaseOk config code phase) (hsteady : SteadyAt store c phase)
    (hstep : satisfyTwoFactorChallenge config store challengeId code phase c =
      some (store', phase')) : Sound config code store' phase' := by
  unfold satisfyTwoFactorChallenge at hstep
  split at hstep
  · split at hstep
    · cases hstep
      exact ⟨h, trivial⟩
    split at hstep
    · cases hstep
      exact ⟨h, trivial⟩
    · cases hstep
      exact ⟨h, trivial⟩
  · cases hstep
    refine ⟨h, ?_⟩
    split <;> trivial
  · split at hstep
    · cases hstep
      exact ⟨h, trivial⟩
    · cases hstep
      exact ⟨h, rfl⟩
  · exact checkCode_sound h hphase hsteady hstep

theorem verifyFor_sound {goal : AuthFnTwoFactorEnrollmentRecord → Goal}
    (hgoal : ∀ enrollment, confirms (goal enrollment) = none) (h : TablesOk config store)
    (hphase : PhaseOk config code phase) (hsteady : SteadyAt store c phase)
    (hstep : verifyFor config goal store code phase c = some (store', phase')) :
    Sound config code store' phase' := by
  unfold verifyFor at hstep
  split at hstep
  · split at hstep
    · cases hstep
      exact ⟨h, trivial⟩
    · cases hstep
      exact ⟨h, hgoal _⟩
  · exact checkCode_sound h hphase hsteady hstep

/-- The code of a request. -/
def codeOf : Request → String
  | .confirmTwoFactorEnrollment code | .satisfyTwoFactorChallenge _ code
  | .verifyTwoFactorCode code | .disableTwoFactorEnrollment code => code
  | _ => ""

theorem advance_sound {call : Call H} (h : TablesOk config store)
    (hphase : PhaseOk config (codeOf call.request) call.phase)
    (hsteady : c.fails = false → SteadyAt store c call.phase)
    (hstep : advance config store call c = some (store', phase')) :
    Sound config (codeOf call.request) store' phase' := by
  unfold advance at hstep
  split at hstep
  · cases hstep
    exact ⟨h, trivial⟩
  rename_i hworks
  have hat := hsteady (by simpa using hworks)
  obtain ⟨request, phase⟩ := call
  cases request with
  | createTwoFactorEnrollment => exact create_sound h hstep
  | createTwoFactorChallenge => exact challenge_sound h hstep
  | confirmTwoFactorEnrollment code => exact confirm_sound h hphase hat hstep
  | satisfyTwoFactorChallenge challengeId code => exact satisfy_sound h hphase hat hstep
  | verifyTwoFactorCode code => exact verifyFor_sound (fun _ => rfl) h hphase hat hstep
  | disableTwoFactorEnrollment code => exact verifyFor_sound (fun _ => rfl) h hphase hat hstep

def CallOk (config : Config H) (_ : Store H) (_ : Nat) (call : Call H) : Prop :=
  PhaseOk config (codeOf call.request) call.phase

structure Inv (config : Config H) (s : Service H) : Prop where
  tables : TablesOk config s.shared
  calls : Each (CallOk config) s

theorem step_inv {s s' : Service H} {a : Act Request Choice} (h : Inv config s)
    (hsteady : Steady s a = true) (hstep : serviceStep config s a = some s') : Inv config s' := by
  rcases act_cases hstep with
    ⟨request, rfl, rfl⟩ | ⟨i, c, call, store', call', rfl, hcall, hnext, rfl⟩
  · exact ⟨h.tables, each_spawn h.calls trivial⟩
  obtain ⟨⟨store, phase⟩, hadvance, hresult⟩ := map_eq_some_iff.mp hnext
  obtain ⟨rfl, rfl⟩ := Prod.mk.inj hresult
  have hsound := advance_sound h.tables (h.calls i call hcall)
    (fun hworks => steadyAt_of_steady hcall hworks hsteady) hadvance
  refine ⟨hsound.tables, ?_⟩
  apply each_move
  · exact hsound.phase
  · intro j other _ hother
    exact h.calls j other hother

omit [DecidableEq H] in
theorem started_inv : Inv config (⟨.empty, []⟩ : Service H) where
  tables := by
    refine ⟨⟨nodup_nil, ?_, ?_, ?_⟩, ⟨List.Pairwise.nil, ?_, ?_⟩,
      ⟨nodup_nil, ?_, ?_, ?_, ?_⟩, ⟨?_, ?_⟩⟩
    all_goals
      exact nofun
  calls := each_nil _ _

/-- In a steady run every recovery code is accepted once at most, the counters accepted for a secret
increase, every challenge is satisfied once at most and in time, and an enrollment is confirmed by
a code of the secret it stores. -/
theorem factors_single_use {s : Service H} {acts : List (Act Request Choice)}
    (hrun : run (serviceStep config) ⟨.empty, []⟩ acts = some s)
    (hsteady : Guarded (serviceStep config) (fun s a => Steady s a = true) ⟨.empty, []⟩ acts) :
    s.shared.usedCodes.Nodup ∧
      (s.shared.counters.Pairwise fun newer older => newer.1 = older.1 → older.2 < newer.2) ∧
      (s.shared.satisfied.map (·.id)).Nodup ∧
      (∀ satisfied ∈ s.shared.satisfied, satisfied.at_ < satisfied.expiresAt) ∧
      ConfirmedOk config s.shared := by
  have hinv : Inv config s :=
    guarded_run_invariant (serviceStep config)
      (fun _ _ _ h hsteady hstep => step_inv h hsteady hstep) started_inv hsteady hrun
  exact ⟨hinv.tables.codes.once, hinv.tables.counters.increasing, hinv.tables.challenges.once,
    hinv.tables.challenges.inTime, hinv.tables.confirmed⟩

end Steps

/-! ## Two runs -/

def digits : Config String where
  hashSecret := id
  totp secret counter := secret ++ toString counter
  toUpperCase := id
  periodSeconds := 30
  window := 1
  recoveryCodeCount := 1
  challengeTtl := 300000

def atTime (time : Int) (drawn : String) : Choice :=
  ⟨time, time, false, true, drawn, "S", "R"⟩

/-- An enrollment with one recovery code is made and confirmed. -/
def enrolled : List (Act Request Choice) :=
  [.spawn .createTwoFactorEnrollment, .move 0 (atTime 0 "e"), .move 0 (atTime 0 "e"),
    .move 0 (atTime 0 "r"), .move 0 (atTime 0 "r"), .spawn (.confirmTwoFactorEnrollment "S1"),
    .move 1 (atTime 30000 ""), .move 1 (atTime 30000 ""), .move 1 (atTime 30000 "")]

/-- A challenge is satisfied with the next counter. -/
def signedIn : List (Act Request Choice) :=
  enrolled ++ [.spawn .createTwoFactorChallenge, .move 2 (atTime 60000 ""),
    .move 2 (atTime 60000 "c"), .spawn (.satisfyTwoFactorChallenge "c" "S2"),
    .move 3 (atTime 60000 ""), .move 3 (atTime 60000 ""), .move 3 (atTime 60000 ""),
    .move 3 (atTime 60000 ""), .move 3 (atTime 60000 ""), .move 3 (atTime 60000 "")]

theorem signedIn_single_use : ∃ s, run (serviceStep digits) ⟨.empty, []⟩ signedIn = some s ∧
    s.shared.usedCodes.Nodup ∧ (s.shared.satisfied.map (·.id)).Nodup := by
  obtain ⟨s, hrun⟩ := isSome_iff_exists.mp
    (show (run (serviceStep digits) ⟨.empty, []⟩ signedIn).isSome = true by decide +kernel)
  have hsteady : Guarded (serviceStep digits) (fun s a => Steady s a = true) ⟨.empty, []⟩
      signedIn := by decide +kernel
  obtain ⟨hcodes, -, hsatisfied, -, -⟩ := factors_single_use hrun hsteady
  exact ⟨s, hrun, hcodes, hsatisfied⟩

/-- Two calls read the recovery code before either marks it. -/
def recoveredTwice : List (Act Request Choice) :=
  enrolled ++ [.spawn (.verifyTwoFactorCode "R"), .spawn (.verifyTwoFactorCode "R"),
    .move 2 (atTime 60000 ""), .move 3 (atTime 60000 ""), .move 2 (atTime 60000 ""),
    .move 3 (atTime 60000 ""), .move 2 (atTime 60000 ""), .move 3 (atTime 60000 "")]

theorem recoveredTwice_reuses :
    ¬∀ s, run (serviceStep digits) ⟨.empty, []⟩ recoveredTwice = some s →
      s.shared.usedCodes.Nodup := by
  intro h
  have hends : (run (serviceStep digits) ⟨.empty, []⟩ recoveredTwice).any
      (fun s => !decide s.shared.usedCodes.Nodup) = true := by decide +kernel
  obtain ⟨s, hrun, hs⟩ := (any_eq_true _ _).mp hends
  rw [Bool.not_eq_true', decide_eq_false_iff_not] at hs
  exact hs (h s hrun)

end SuperFunctions.Authfn.TwoFactorRuns
