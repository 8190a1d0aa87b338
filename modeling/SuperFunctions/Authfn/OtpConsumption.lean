import SuperFunctions.Authfn.OtpChallenges

/-!
# Consumed challenges

In every run a challenge is consumed once at most, by a call that was checked before its expiry and
holds the code that was sent.
-/
namespace SuperFunctions.Authfn.OtpConsumption

open Lib.Processes Lib.Transition OtpChallenges List

variable {H : Type}

/-- What an update of a row keeps. -/
structure SameChallenge (row row' : AuthFnOtpChallengeRecord H) : Prop where
  id : row'.id = row.id
  codeHash : row'.codeHash = row.codeHash
  expiresAt : row'.expiresAt = row.expiresAt

/-- A challenge that a call holds is a row of the table, perhaps in an older version. -/
def Held (store : Store H) (challenge : AuthFnOtpChallengeRecord H) : Prop :=
  ∃ row ∈ store.rows, SameChallenge challenge row

/-- A call with the right code. -/
structure Matched (config : Config H) (store : Store H) (code : String)
    (challenge : AuthFnOtpChallengeRecord H) (now : Int) : Prop where
  held : Held store challenge
  code : challenge.codeHash = config.hashSecret code
  unexpired : now < challenge.expiresAt

def PhaseOk (config : Config H) (store : Store H) (code : String) : Phase H → Prop
  | .read (some challenge) => Held store challenge
  | .matched challenge _ now => Matched config store code challenge now
  | .consuming challenge _ now => Matched config store code challenge now
  | _ => True

def CallOk (config : Config H) (store : Store H) (_ : Nat) (call : Call H) : Prop :=
  ∀ code, call.request.code = some code → PhaseOk config store code call.phase

/-- A consumption belongs to a row that it marked, and to the code that was sent for it. -/
structure ConsumptionOk (config : Config H) (store : Store H) (c : Consumption) : Prop where
  row : ∃ row ∈ store.rows, row.id = c.id ∧ row.consumedAt = some c.now ∧ c.now < row.expiresAt ∧
    row.codeHash = config.hashSecret c.code

structure TablesOk (config : Config H) (store : Store H) : Prop where
  sentIds : store.sent.map (·.1) = (store.rows.map (·.id)).reverse
  ids : (store.rows.map (·.id)).Nodup
  sent : ∀ row ∈ store.rows, ∃ code, (row.id, code) ∈ store.sent ∧
    row.codeHash = config.hashSecret code
  consumptions : ∀ c ∈ store.consumptions, ConsumptionOk config store c
  once : (store.consumptions.map (·.id)).Nodup

structure Inv (config : Config H) (s : Service H) : Prop where
  tables : TablesOk config s.shared
  calls : Each (CallOk config) s

variable {challenge : AuthFnOtpChallengeRecord H} {code : String}

section Tables

variable {config : Config H} {store store' : Store H}

theorem sameChallenge_refl (row : AuthFnOtpChallengeRecord H) : SameChallenge row row :=
  ⟨rfl, rfl, rfl⟩

/-- Every row stays, with its mark if it was consumed. -/
def Grows (store store' : Store H) : Prop :=
  ∀ row ∈ store.rows, ∃ row' ∈ store'.rows, SameChallenge row row' ∧
    (row.consumedAt.isSome = true → row'.consumedAt = row.consumedAt)

theorem grows_of_subset (h : store.rows ⊆ store'.rows) : Grows store store' :=
  fun row hrow => ⟨row, h hrow, sameChallenge_refl row, fun _ => rfl⟩

section

variable (hgrows : Grows store store')
include hgrows

theorem held_grows (h : Held store challenge) : Held store' challenge := by
  obtain ⟨row, hrow, hsame⟩ := h
  obtain ⟨row', hrow', hsame', -⟩ := hgrows row hrow
  exact ⟨row', hrow', hsame'.id.trans hsame.id, hsame'.codeHash.trans hsame.codeHash,
    hsame'.expiresAt.trans hsame.expiresAt⟩

theorem phaseOk_grows {phase : Phase H} (h : PhaseOk config store code phase) :
    PhaseOk config store' code phase := by
  cases phase with
  | read challenge =>
    cases challenge with
    | none => trivial
    | some challenge => exact held_grows hgrows h
  | matched challenge attemptCount now => exact { h with held := held_grows hgrows h.held }
  | consuming challenge attemptCount now => exact { h with held := held_grows hgrows h.held }
  | _ => trivial

theorem consumptionOk_grows {c : Consumption} (h : ConsumptionOk config store c) :
    ConsumptionOk config store' c := by
  obtain ⟨row, hrow, hid, hconsumed, hexpires, hcode⟩ := h.row
  obtain ⟨row', hrow', hsame, hkept⟩ := hgrows row hrow
  refine ⟨row', hrow', hsame.id.trans hid, ?_, hsame.expiresAt ▸ hexpires,
    hsame.codeHash.trans hcode⟩
  rw [hkept (by rw [hconsumed]; rfl), hconsumed]

end

/-- An update that keeps the challenge and its mark. -/
structure Keeps (change : AuthFnOtpChallengeRecord H → AuthFnOtpChallengeRecord H) : Prop where
  same : ∀ row, SameChallenge row (change row)
  consumed : ∀ row, row.consumedAt.isSome = true → (change row).consumedAt = row.consumedAt

theorem update_ids (id : String) {change} (hkeeps : Keeps (H := H) change) :
    (store.update id change).rows.map (·.id) = store.rows.map (·.id) := by
  simp only [Store.update, map_map]
  apply map_congr_left
  intro row _
  simp only [Function.comp_apply]
  split
  · exact (hkeeps.same row).id
  · rfl

theorem grows_update (id : String) {change} (hkeeps : Keeps (H := H) change) :
    Grows store (store.update id change) := by
  intro row hrow
  refine ⟨_, mem_map_of_mem hrow, ?_, ?_⟩
  · split
    · exact hkeeps.same row
    · exact sameChallenge_refl row
  · intro hsome
    split
    · exact hkeeps.consumed row hsome
    · rfl

theorem tables_update (id : String) {change} (hkeeps : Keeps (H := H) change)
    (h : TablesOk config store) : TablesOk config (store.update id change) := { h with
  sentIds := by
    rw [update_ids id hkeeps]
    exact h.sentIds
  ids := by
    rw [update_ids id hkeeps]
    exact h.ids
  sent := by
    refine forall_mem_map.mpr fun old hold => ?_
    obtain ⟨code, hsent, hcode⟩ := h.sent old hold
    refine ⟨code, ?_⟩
    split
    · rw [(hkeeps.same old).id, (hkeeps.same old).codeHash]
      exact ⟨hsent, hcode⟩
    · exact ⟨hsent, hcode⟩
  consumptions c hc := consumptionOk_grows (grows_update id hkeeps) (h.consumptions c hc) }

theorem keeps_attemptCount (attemptCount : Nat) :
    Keeps (H := H) fun row => { row with attemptCount } :=
  ⟨fun _ => ⟨rfl, rfl, rfl⟩, fun _ _ => rfl⟩

theorem keeps_consumed (attemptCount : Nat) (now : Int) : Keeps (H := H) fun row =>
    if row.consumedAt.isNone then { row with attemptCount, consumedAt := some now } else row where
  same row := by
    split
    · exact ⟨rfl, rfl, rfl⟩
    · exact sameChallenge_refl row
  consumed row hsome := by
    have hnone : row.consumedAt.isNone = false := by simpa using hsome
    simp only [hnone, Bool.false_eq_true, if_false]

theorem row_unique (h : TablesOk config store) {a b : AuthFnOtpChallengeRecord H}
    (ha : a ∈ store.rows) (hb : b ∈ store.rows) (hid : a.id = b.id) : a = b :=
  inj_on_of_nodup_map h.ids ha hb hid

theorem consumeOtpChallenge_cases {attemptCount : Nat} {now : Int}
    (h : consumeOtpChallenge store challenge attemptCount now = some store') :
    (∃ row ∈ store.rows, row.id = challenge.id ∧ row.consumedAt = none ∧
      { row with attemptCount, consumedAt := some now } ∈ store'.rows) ∧
    store' = store.update challenge.id fun row =>
      if row.consumedAt.isNone then { row with attemptCount, consumedAt := some now } else row := by
  unfold consumeOtpChallenge at h
  split at h
  · rename_i hany
    cases h
    obtain ⟨row, hrow, hcondition⟩ := any_eq_true.mp hany
    simp only [Bool.and_eq_true, decide_eq_true_eq, Option.isNone_iff_eq_none] at hcondition
    obtain ⟨hid, hnone⟩ := hcondition
    refine ⟨⟨row, hrow, hid, hnone, ?_⟩, rfl⟩
    apply mem_map.mpr
    refine ⟨row, hrow, ?_⟩
    simp only [if_pos hid, hnone, Option.isNone_none, if_true]
  · cases h

theorem tables_consumed {attemptCount : Nat} {now : Int} {time : Int} (h : TablesOk config store)
    (hmatched : Matched config store code challenge now)
    (hconsume : consumeOtpChallenge store challenge attemptCount now = some store') :
    TablesOk config { store' with
      consumptions := ⟨challenge.id, code, now, time⟩ :: store'.consumptions } := by
  obtain ⟨⟨row, hrow, hid, hnone, hmarked⟩, rfl⟩ := consumeOtpChallenge_cases hconsume
  have hupdated := tables_update challenge.id (keeps_consumed attemptCount now) h
  obtain ⟨held, hheld, hsame⟩ := hmatched.held
  have hrowHeld : row = held := row_unique h hrow hheld (hid.trans hsame.id.symm)
  subst hrowHeld
  refine { hupdated with consumptions := ?_, once := ?_ }
  · intro c hc
    rcases mem_cons.mp hc with rfl | hold
    · refine ⟨_, hmarked, hid, rfl, ?_, ?_⟩
      · show now < row.expiresAt
        rw [hsame.expiresAt]
        exact hmatched.unexpired
      · show row.codeHash = config.hashSecret code
        rw [hsame.codeHash]
        exact hmatched.code
    · exact ⟨(hupdated.consumptions c hold).row⟩
  · refine nodup_cons.mpr ⟨?_, h.once⟩
    intro hmem
    obtain ⟨c, hc, hcid⟩ := mem_map.mp hmem
    obtain ⟨other, hother, hotherId, hconsumed, -⟩ := (h.consumptions c hc).row
    have hsameRow : other = row := row_unique h hother hrow (hotherId.trans (hcid.trans hid.symm))
    subst hsameRow
    cases hconsumed.symm.trans hnone

variable {row : AuthFnOtpChallengeRecord H}

theorem tables_created {id : String} (h : TablesOk config store)
    (hfresh : ∀ other ∈ store.rows, other.id ≠ id) (hid : row.id = id)
    (hcode : row.codeHash = config.hashSecret code) :
    TablesOk config { store with
      rows := store.rows ++ [row], sent := (id, code) :: store.sent } := { h with
  sentIds := by
    simp only [map_cons, map_append, map_nil, reverse_append,
      reverse_cons, reverse_nil, nil_append, cons_append, h.sentIds, hid]
  ids := by
    refine nodup_map_append h.ids fun other hother hsame => ?_
    exact hfresh other hother (hsame.trans hid)
  sent := by
    intro other hother
    rcases mem_append.mp hother with hold | hnew
    · obtain ⟨old, hsent, hhash⟩ := h.sent other hold
      exact ⟨old, mem_cons_of_mem _ hsent, hhash⟩
    · cases mem_singleton.mp hnew
      exact ⟨code, hid ▸ mem_cons_self, hcode⟩
  consumptions c hc := by
    apply consumptionOk_grows _ (h.consumptions c hc)
    exact grows_of_subset (subset_append_left _ _) }

theorem findLatestChallenge_mem {rows : List (AuthFnOtpChallengeRecord H)}
    (h : findLatestChallenge rows = some row) : row ∈ rows := by
  have hlatest : ∀ b, findLatestChallenge rows = some b → b ∈ rows := by
    unfold findLatestChallenge
    refine foldlRecOn rows _ (motive := fun best => ∀ b, best = some b → b ∈ rows) ?_ ?_
    · intro b hb
      cases hb
    intro best hbest row hrow b hb
    cases best with
    | none =>
      cases hb
      exact hrow
    | some latest =>
      dsimp only at hb
      split at hb
      · cases hb
        exact hrow
      · exact hbest b hb
  exact hlatest row h

end Tables

section Steps

variable [DecidableEq H] {config : Config H} {store store' : Store H} {phase phase' : Phase H}
  {c : Choice}

/-- What a step leaves: sound tables that have grown, and a call in a sound phase. -/
structure Sound (config : Config H) (store store' : Store H) (code : String) (phase' : Phase H) :
    Prop where
  tables : TablesOk config store'
  grows : Grows store store'
  phase : PhaseOk config store' code phase'

omit [DecidableEq H] in
theorem sound_unchanged (htables : TablesOk config store)
    (hphase : PhaseOk config store code phase') : Sound config store store code phase' :=
  ⟨htables, grows_of_subset (List.Subset.refl _), hphase⟩

omit [DecidableEq H] in
theorem tables_compared {ids : List String} (h : TablesOk config store) :
    TablesOk config { store with compared := ids } :=
  { h with consumptions := fun c hc => ⟨(h.consumptions c hc).row⟩ }

theorem check_sound {challenge : Option (AuthFnOtpChallengeRecord H)} (now : Int)
    (htables : TablesOk config store) (hphase : PhaseOk config store code (.read challenge)) :
    Sound config store (check config store challenge code now).1 code
      (check config store challenge code now).2 := by
  cases challenge with
  | none => exact sound_unchanged htables trivial
  | some challenge =>
    have hcompared : ∀ phase', PhaseOk config store code phase' → Sound config store
        { store with compared := challenge.id :: store.compared } code phase' := by
      intro phase' hok
      have hgrows : Grows store { store with compared := challenge.id :: store.compared } :=
        grows_of_subset (List.Subset.refl _)
      exact ⟨tables_compared htables, hgrows, phaseOk_grows hgrows hok⟩
    unfold check
    dsimp only
    split
    · exact sound_unchanged htables trivial
    split
    · exact sound_unchanged htables trivial
    rename_i hunexpired
    split
    · exact sound_unchanged htables trivial
    split
    · exact hcompared _ trivial
    · rename_i hcode
      have hcode : challenge.codeHash = config.hashSecret code := by simpa using hcode
      exact hcompared _ ⟨hphase, hcode, Int.not_le.mp hunexpired⟩

theorem verify_sound (htables : TablesOk config store) (hphase : PhaseOk config store code phase)
    (h : verifyOtpChallenge config store code phase c = some (store', phase')) :
    Sound config store store' code phase' := by
  cases phase with
  | entered =>
    cases h
    apply sound_unchanged htables
    split
    · trivial
    · cases hlatest : findLatestChallenge store.rows with
      | none => trivial
      | some row => exact ⟨row, findLatestChallenge_mem hlatest, sameChallenge_refl row⟩
  | read challenge =>
    have hcheck := check_sound c.at_ htables hphase
    obtain ⟨rfl, rfl⟩ := Prod.mk.inj (Option.some.inj h)
    exact hcheck
  | counting challenge attemptCount =>
    simp only [verifyOtpChallenge] at h
    split at h
    · cases h
      exact sound_unchanged htables trivial
    · cases h
      have hkeeps := keeps_attemptCount (H := H) attemptCount
      exact ⟨tables_update _ hkeeps htables, grows_update _ hkeeps, trivial⟩
  | matched challenge attemptCount now =>
    simp only [verifyOtpChallenge] at h
    split at h
    · cases h
      exact sound_unchanged htables trivial
    · cases h
      exact sound_unchanged htables hphase
  | consuming challenge attemptCount now =>
    simp only [verifyOtpChallenge] at h
    split at h
    · cases h
      exact sound_unchanged htables trivial
    split at h
    · cases h
      exact sound_unchanged htables trivial
    rename_i hconsume
    cases h
    refine ⟨tables_consumed htables hphase hconsume, ?_, trivial⟩
    obtain ⟨-, rfl⟩ := consumeOtpChallenge_cases hconsume
    exact grows_update challenge.id (keeps_consumed attemptCount now)
  | consumed =>
    cases h
    apply sound_unchanged htables
    split <;> trivial
  | hooking now => cases h
  | delivering => cases h
  | returned => cases h
  | threw error => cases h

omit [DecidableEq H] in
theorem send_sound (htables : TablesOk config store)
    (h : sendOtpChallenge config store phase c = some (store', phase')) :
    TablesOk config store' ∧ Grows store store' := by
  have hsame := grows_of_subset (List.Subset.refl store.rows)
  cases phase with
  | entered | delivering =>
    cases h
    exact ⟨htables, hsame⟩
  | hooking now =>
    simp only [sendOtpChallenge] at h
    split at h
    · cases h
      exact ⟨htables, hsame⟩
    split at h
    · cases h
      exact ⟨htables, hsame⟩
    split at h
    · cases h
      exact ⟨htables, hsame⟩
    rename_i hfresh
    cases h
    refine ⟨tables_created htables ?_ rfl rfl, ?_⟩
    · intro other hother hid
      exact hfresh (any_eq_true.mpr ⟨other, hother, by simpa using hid⟩)
    · exact grows_of_subset (subset_append_left _ _)
  | read challenge => cases h
  | counting challenge attemptCount => cases h
  | matched challenge attemptCount now => cases h
  | consuming challenge attemptCount now => cases h
  | consumed => cases h
  | returned => cases h
  | threw error => cases h

theorem step_inv {s s' : Service H} {a : Act Request Choice} (h : Inv config s)
    (hstep : serviceStep config s a = some s') : Inv config s' := by
  rcases act_cases hstep with
    ⟨request, rfl, rfl⟩ | ⟨i, c, call, store', call', rfl, hcall, hnext, rfl⟩
  · refine ⟨h.tables, each_spawn h.calls ?_⟩
    intro code _
    trivial
  obtain ⟨⟨store, phase⟩, hadvance, hresult⟩ := Option.map_eq_some_iff.mp hnext
  obtain ⟨rfl, rfl⟩ := Prod.mk.inj hresult
  have hok : CallOk config s.shared i call := h.calls i call hcall
  have hothers : ∀ store', Grows s.shared store' → ∀ j other, j ≠ i →
      s.procs[j]? = some other → CallOk config store' j other := by
    intro store' hgrows j other _ hother code hcode
    exact phaseOk_grows hgrows (h.calls j other hother code hcode)
  obtain ⟨request, before⟩ := call
  cases request with
  | sendOtpChallenge =>
    obtain ⟨htables, hgrows⟩ := send_sound h.tables hadvance
    refine ⟨htables, each_move ?_ (hothers _ hgrows)⟩
    exact nofun
  | verifyOtpChallenge code | completeResetPassword code =>
    have hsound := verify_sound h.tables (hok code rfl) hadvance
    refine ⟨hsound.tables, each_move ?_ (hothers _ hsound.grows)⟩
    intro other hother
    cases hother
    exact hsound.phase

omit [DecidableEq H] in
theorem started_inv : Inv config (⟨.empty, []⟩ : Service H) where
  tables := ⟨rfl, nodup_nil, forall_mem_nil _, forall_mem_nil _, nodup_nil⟩
  calls := each_nil _ _

theorem run_inv {s : Service H} {acts : List (Act Request Choice)}
    (hrun : run (serviceStep config) ⟨.empty, []⟩ acts = some s) : Inv config s :=
  run_invariant (serviceStep config) (fun _ _ _ h hstep => step_inv h hstep) started_inv hrun

end Steps

end SuperFunctions.Authfn.OtpConsumption
