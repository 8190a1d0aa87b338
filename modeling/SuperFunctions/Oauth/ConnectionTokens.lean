import SuperFunctions.Oauth.ConnectionFlow

/-!
# The tokens of a connection

A run is orderly when no write of a token comes late: a refresh writes over the record it has read, a
callback's token is newer than every one written before it, and the state is still there when the
exchange is done. In an orderly run the vault holds what the provider answered last. A refresh that
is overtaken by a disconnect puts the deleted token back.
-/
namespace SuperFunctions.Oauth.ConnectionTokens

open Lib.OrderedMap Lib.Processes Lib.Transition ConnectionFlow List OMap

/-! ## What is claimed -/

/-- The token that a call has been answered and has not written. -/
def holds : Phase → Option (String × Nat)
  | .exchanged flow _ serial =>
    match flow.subject with
    | .connection _ _ connectionId => some (ownConnection flow.stateId connectionId, serial)
    | .browserAuth _ => none
  | .persisting record => some (record.record.connectionId, record.serial)
  | .rewriting existing record => some (existing.record.connectionId, record.serial)
  | _ => none

def Event.written (e : Event) : Option (String × Nat) :=
  match e with
  | .stored connectionId serial | .rewrote connectionId serial => some (connectionId, serial)
  | _ => none

/-- The connection was disconnected, and no callback has stored a token since. -/
def gone (connectionId : String) : List Event → Bool
  | [] => false
  | .deleted other :: older => other == connectionId || gone connectionId older
  | .stored other _ :: older => other != connectionId && gone connectionId older
  | _ :: older => gone connectionId older

/-- The token written last, unless it was deleted. -/
def lastWritten (connectionId : String) : List Event → Option Nat
  | [] => none
  | .deleted other :: older => if other = connectionId then none else lastWritten connectionId older
  | .stored other serial :: older | .rewrote other serial :: older =>
    if other = connectionId then some serial else lastWritten connectionId older
  | .answered .. :: older => lastWritten connectionId older

/-- The record belongs to the tenant, user and connection that its state was started for; those of a
sign-in are the ones that the hook resolved. -/
def Owns (resolved : List (String × Identity)) (record : TokenRecord) (flow : Flow) : Prop :=
  match flow.subject with
  | .connection tenantId userId connectionId =>
    record.tenantId = tenantId ∧ record.userId = userId ∧
      record.connectionId = ownConnection flow.stateId connectionId
  | .browserAuth _ => ∃ identity, (flow.stateId, identity) ∈ resolved ∧
    record.tenantId = identity.tenantId ∧ record.userId = identity.userId ∧
      record.connectionId = ownConnection flow.stateId identity.connectionId

def Owned (store : Store) (s : Stored) : Prop :=
  ∃ flow ∈ store.started, flow.stateId = s.flow ∧ Owns store.resolved s.record flow

structure TokensKept (s : Service) : Prop where
  once : (s.shared.exchanges.map Prod.fst).Nodup
  owned : ∀ connectionId r, s.shared.vault.get connectionId = some r →
    r.record.connectionId = connectionId ∧ Owned s.shared r
  gone : ∀ connectionId, gone connectionId s.shared.log = true →
    s.shared.vault.get connectionId = none
  succeeded : ∀ connectionId r, s.shared.vault.get connectionId = some r → r.flow ∉ s.shared.failed
  kept : ∀ connectionId,
    (s.shared.vault.get connectionId).map Stored.serial = lastWritten connectionId s.shared.log
  answered : ∀ connectionId r, s.shared.vault.get connectionId = some r →
    .answered connectionId r.serial r.record.tokenSet ∈ s.shared.log
  latest : ∀ connectionId r, s.shared.vault.get connectionId = some r →
    ∀ serial tokenSet, .answered connectionId serial tokenSet ∈ s.shared.log →
      serial ≤ r.serial ∨ ∃ call ∈ s.procs, holds call.phase = some (connectionId, serial)

/-! ## The guard -/

def orderlyAt (store : Store) (c : Choice) : Phase → Bool
  | .exchanged flow _ _ => (findState store flow.stateId).isSome
  | .persisting record => (store.log.filterMap Event.written).all fun w =>
    decide (w.1 = record.record.connectionId → w.2 < record.serial)
  | .connecting _ => !c.fails
  | .rewriting existing _ =>
    decide (store.vault.get existing.record.connectionId = some existing)
  | _ => true

def Orderly (s : Service) : Act Request Choice → Bool
  | .spawn _ => true
  | .move i c => (s.procs[i]?).all fun call => orderlyAt s.shared c call.phase

/-! ## Invariants -/

/-- The states: an id is started once and consumed once, and exchanged only when consumed. -/
structure FlowsOk (store : Store) : Prop where
  ids : (store.started.map Flow.stateId).Nodup
  named : ∀ flow ∈ store.started, flow.subject.named = true
  rows : ∀ row ∈ store.states, row.flow ∈ store.started
  pending : ∀ stateId connectionId,
    store.pendingConnectionByState.get stateId = some connectionId →
      ∃ flow ∈ store.started, flow.stateId = stateId ∧ ∃ tenantId userId,
        flow.subject = .connection tenantId userId (some connectionId)
  consumedOnce : (store.consumptions.map Prod.fst).Nodup
  consumedRows : ∀ row ∈ store.states, row.flow.stateId ∈ store.consumptions.map Prod.fst →
    row.consumed = true
  consumedStarted : ∀ p ∈ store.consumptions, p.1 ∈ store.started.map Flow.stateId
  exchangedConsumed : ∀ p ∈ store.exchanges, p ∈ store.consumptions
  exchangedOnce : (store.exchanges.map Prod.fst).Nodup

/-- The vault, against the log. -/
structure VaultOk (config : Config) (store : Store) : Prop where
  owned : ∀ connectionId r, store.vault.get connectionId = some r →
    r.record.connectionId = connectionId ∧ Owned store r
  answered : ∀ connectionId r, store.vault.get connectionId = some r →
    .answered connectionId r.serial r.record.tokenSet ∈ store.log
  below : ∀ connectionId serial tokenSet, .answered connectionId serial tokenSet ∈ store.log →
    serial < store.serials
  gone : ∀ connectionId, ConnectionTokens.gone connectionId store.log = true →
    store.vault.get connectionId = none
  kept : ∀ connectionId,
    (store.vault.get connectionId).map Stored.serial = lastWritten connectionId store.log
  plainEmpty : config.storageSafe = false → ∀ connectionId, store.vault.get connectionId = none
  succeeded : store.failed = []

/-- What a call knows. -/
def PhaseOk (config : Config) (store : Store) (i : Nat) : Phase → Prop
  | .registered flow => flow ∈ store.started
  | .consumed flow => flow ∈ store.started ∧ (flow.stateId, i) ∈ store.consumptions ∧
    (flow.stateId, i) ∉ store.exchanges
  | .exchanging flow => flow ∈ store.started
  | .exchanged flow tokenSet serial => flow ∈ store.started ∧ serial < store.serials ∧
    ∀ connectionId, holds (.exchanged flow tokenSet serial) = some (connectionId, serial) →
      .answered connectionId serial tokenSet ∈ store.log
  | .identifying flow _ serial => flow ∈ store.started ∧ serial < store.serials ∧
    ∃ intentId, flow.subject = .browserAuth intentId
  | .persisting record => Owned store record ∧ config.storageSafe = true ∧
    .answered record.record.connectionId record.serial record.record.tokenSet ∈ store.log
  | .refreshing existing => Owned store existing ∧ existing.serial < store.serials
  | .rewriting existing record => Owned store record ∧
    record.record.connectionId = existing.record.connectionId ∧ existing.serial < record.serial ∧
    .answered record.record.connectionId record.serial record.record.tokenSet ∈ store.log
  | _ => True

/-- What a move of process `i` leaves to the others. -/
structure Grows (i : Nat) (store store' : Store) : Prop where
  started : ∀ flow ∈ store.started, flow ∈ store'.started
  consumptions : ∀ p ∈ store.consumptions, p ∈ store'.consumptions
  exchanges : ∀ p ∈ store'.exchanges, p ∈ store.exchanges ∨ p.2 = i
  resolved : ∀ p ∈ store.resolved, p ∈ store'.resolved
  serials : store.serials ≤ store'.serials
  log : ∀ e ∈ store.log, e ∈ store'.log

/-- What a move does to the vault and the log. -/
inductive Effect (config : Config) (store store' : Store) (phase phase' : Phase) : Prop where
  | same (hlog : store'.log = store.log) (hvault : store'.vault = store.vault)
      (hholds : holds phase' = holds phase)
  | answers (connectionId : String) (serial : Nat) (tokenSet : TokenSet)
      (hlog : store'.log = .answered connectionId serial tokenSet :: store.log)
      (hvault : store'.vault = store.vault) (hbefore : holds phase = none)
      (hafter : holds phase' = some (connectionId, serial)) (hbelow : serial < store'.serials)
  | stores (r : Stored) (hlog : store'.log = .stored r.record.connectionId r.serial :: store.log)
      (hvault : store'.vault = store.vault.set r.record.connectionId r)
      (hbefore : holds phase = some (r.record.connectionId, r.serial))
      (hafter : holds phase' = none) (hsafe : config.storageSafe = true)
      (hnewer : ∀ w ∈ store.log.filterMap Event.written, w.1 = r.record.connectionId →
        w.2 < r.serial)
      (howned : Owned store' r)
      (hanswered : .answered r.record.connectionId r.serial r.record.tokenSet ∈ store.log)
  | rewrites (existing r : Stored)
      (hlog : store'.log = .rewrote r.record.connectionId r.serial :: store.log)
      (hvault : store'.vault = store.vault.set r.record.connectionId r)
      (hbefore : holds phase = some (r.record.connectionId, r.serial))
      (hafter : holds phase' = none) (hsafe : config.storageSafe = true)
      (hread : store.vault.get r.record.connectionId = some existing)
      (hnewer : existing.serial < r.serial) (howned : Owned store' r)
      (hanswered : .answered r.record.connectionId r.serial r.record.tokenSet ∈ store.log)
  | deletes (connectionId : String) (hlog : store'.log = .deleted connectionId :: store.log)
      (hvault : store'.vault = store.vault.delete connectionId) (hbefore : holds phase = none)
      (hafter : holds phase' = none)
  | drops (hlog : store'.log = store.log) (hvault : store'.vault = store.vault)
      (hplain : config.storageSafe = false) (hafter : holds phase' = none)

/-- What a move leaves. -/
structure Sound (config : Config) (store store' : Store) (i : Nat) (phase phase' : Phase) :
    Prop where
  flows : FlowsOk store'
  grows : Grows i store store'
  effect : Effect config store store' phase phase'
  phase : PhaseOk config store' i phase'
  failed : store'.failed = store.failed

variable {connectionId : String} {r : Stored}

section Growth

variable {config : Config} {store store' : Store} {i : Nat}

theorem grows_refl (store : Store) (i : Nat) : Grows i store store where
  started := fun _ => id
  consumptions := fun _ => id
  exchanges := fun _ h => .inl h
  resolved := fun _ => id
  serials := le_rfl
  log := fun _ => id

theorem owned_grows (g : Grows i store store') (h : Owned store r) : Owned store' r := by
  obtain ⟨flow, hflow, hid, howns⟩ := h
  refine ⟨flow, g.started flow hflow, hid, ?_⟩
  revert howns
  simp only [Owns]
  cases flow.subject with
  | connection tenantId userId connectionId => exact fun h => h
  | browserAuth intentId =>
    rintro ⟨identity, hidentity, hfields⟩
    exact ⟨identity, g.resolved _ hidentity, hfields⟩

theorem phaseOk_grows (g : Grows i store store') {j : Nat} (hj : j ≠ i) {phase : Phase}
    (h : PhaseOk config store j phase) : PhaseOk config store' j phase := by
  cases phase with
  | registered flow | exchanging flow => exact g.started flow h
  | consumed flow =>
    obtain ⟨hstarted, hconsumed, hnot⟩ := h
    refine ⟨g.started flow hstarted, g.consumptions _ hconsumed, fun hexchanged => ?_⟩
    rcases g.exchanges _ hexchanged with hold | hi
    · exact hnot hold
    · exact hj hi
  | exchanged flow tokenSet serial =>
    obtain ⟨hstarted, hserial, hanswered⟩ := h
    exact ⟨g.started flow hstarted, Nat.lt_of_lt_of_le hserial g.serials,
      fun connectionId hholds => g.log _ (hanswered connectionId hholds)⟩
  | identifying flow tokenSet serial =>
    exact ⟨g.started flow h.1, Nat.lt_of_lt_of_le h.2.1 g.serials, h.2.2⟩
  | persisting record => exact ⟨owned_grows g h.1, h.2.1, g.log _ h.2.2⟩
  | refreshing existing => exact ⟨owned_grows g h.1, Nat.lt_of_lt_of_le h.2 g.serials⟩
  | rewriting existing record => exact ⟨owned_grows g h.1, h.2.1, h.2.2.1, g.log _ h.2.2.2⟩
  | entered => trivial
  | previewed providerId => trivial
  | connecting flow => trivial
  | revoking => trivial
  | deleting revokeFailed => trivial
  | disconnecting revokeFailed => trivial
  | done ok => trivial

section

variable (h : VaultOk config store)
include h

section

variable (g : Grows i store store')
include g

theorem vaultOk_set (hfailed : store'.failed = store.failed) {e : Event}
    (hlog : store'.log = e :: store.log)
    (hvault : store'.vault = store.vault.set r.record.connectionId r)
    (hsafe : config.storageSafe = true) (howned : Owned store' r)
    (hanswered : .answered r.record.connectionId r.serial r.record.tokenSet ∈ store.log)
    (hnew : ∀ connectionId serial tokenSet, e ≠ .answered connectionId serial tokenSet)
    (hgone : ∀ connectionId, gone connectionId (e :: store.log) = true →
      connectionId ≠ r.record.connectionId ∧ gone connectionId store.log = true)
    (hlast : ∀ connectionId, lastWritten connectionId (e :: store.log) =
      if r.record.connectionId = connectionId then some r.serial
      else lastWritten connectionId store.log) : VaultOk config store' where
  owned := by
    intro connectionId r' hget
    rw [hvault, get_set] at hget
    split at hget
    · rename_i hc
      cases hget
      exact ⟨hc.symm, howned⟩
    · exact ⟨(h.owned connectionId r' hget).1, owned_grows g (h.owned connectionId r' hget).2⟩
  answered := by
    intro connectionId r' hget
    apply g.log
    rw [hvault, get_set] at hget
    split at hget
    · rename_i hc
      cases hget
      rwa [hc]
    · exact h.answered connectionId r' hget
  below := by
    intro connectionId serial tokenSet hmem
    rw [hlog] at hmem
    rcases mem_cons.mp hmem with heq | hold
    · exact absurd heq.symm (hnew connectionId serial tokenSet)
    · exact Nat.lt_of_lt_of_le (h.below connectionId serial tokenSet hold) g.serials
  gone := by
    intro connectionId hg
    rw [hlog] at hg
    obtain ⟨hne, hold⟩ := hgone connectionId hg
    rw [hvault, get_set, if_neg hne]
    exact h.gone connectionId hold
  kept := by
    intro connectionId
    rw [hlog, hlast, hvault, get_set]
    by_cases hc : connectionId = r.record.connectionId
    · rw [if_pos hc, if_pos hc.symm]
      rfl
    · rw [if_neg hc, if_neg (Ne.symm hc)]
      exact h.kept connectionId
  plainEmpty := by
    intro hplain
    rw [hplain] at hsafe
    cases hsafe
  succeeded := hfailed.trans h.succeeded

theorem vaultOk_kept (hfailed : store'.failed = store.failed) (hvault : store'.vault = store.vault)
    (hbelow : ∀ connectionId serial tokenSet,
      .answered connectionId serial tokenSet ∈ store'.log → serial < store'.serials)
    (hgone : ∀ connectionId, gone connectionId store'.log = gone connectionId store.log)
    (hlast : ∀ connectionId, lastWritten connectionId store'.log =
      lastWritten connectionId store.log) : VaultOk config store' where
  owned := by
    intro connectionId r hget
    rw [hvault] at hget
    exact ⟨(h.owned connectionId r hget).1, owned_grows g (h.owned connectionId r hget).2⟩
  answered := by
    intro connectionId r hget
    rw [hvault] at hget
    exact g.log _ (h.answered connectionId r hget)
  below := hbelow
  gone := by
    intro connectionId hg
    rw [hgone] at hg
    rw [hvault]
    exact h.gone connectionId hg
  kept := by
    intro connectionId
    rw [hvault, hlast]
    exact h.kept connectionId
  plainEmpty := by
    intro hplain connectionId
    rw [hvault]
    exact h.plainEmpty hplain connectionId
  succeeded := hfailed.trans h.succeeded

theorem vaultOk_delete (hfailed : store'.failed = store.failed)
    (hlog : store'.log = .deleted connectionId :: store.log)
    (hvault : store'.vault = store.vault.delete connectionId) : VaultOk config store' where
  owned := by
    intro other r hget
    rw [hvault, get_delete] at hget
    split at hget
    · cases hget
    · exact ⟨(h.owned other r hget).1, owned_grows g (h.owned other r hget).2⟩
  answered := by
    intro other r hget
    rw [hvault, get_delete] at hget
    split at hget
    · cases hget
    · exact g.log _ (h.answered other r hget)
  below := by
    intro other serial tokenSet hmem
    rw [hlog] at hmem
    rcases mem_cons.mp hmem with heq | hold
    · cases heq
    · exact Nat.lt_of_lt_of_le (h.below other serial tokenSet hold) g.serials
  gone := by
    intro other hg
    rw [hlog, ConnectionTokens.gone, Bool.or_eq_true, beq_iff_eq] at hg
    rw [hvault, get_delete]
    split
    · rfl
    · rename_i hne
      rcases hg with hsame | hold
      · exact absurd hsame.symm hne
      · exact h.gone other hold
  kept := by
    intro other
    rw [hlog, lastWritten, hvault, get_delete]
    by_cases hc : other = connectionId
    · rw [if_pos hc, if_pos hc.symm]
      rfl
    · rw [if_neg hc, if_neg (Ne.symm hc)]
      exact h.kept other
  plainEmpty := by
    intro hplain other
    rw [hvault, get_delete, h.plainEmpty hplain]
    split <;> rfl
  succeeded := hfailed.trans h.succeeded

theorem vaultOk_effect {phase phase' : Phase} (hfailed : store'.failed = store.failed)
    (e : Effect config store store' phase phase') : VaultOk config store' := by
  cases e with
  | same hlog hvault | drops hlog hvault =>
    apply vaultOk_kept h g hfailed hvault
    · intro connectionId serial tokenSet hmem
      rw [hlog] at hmem
      exact Nat.lt_of_lt_of_le (h.below connectionId serial tokenSet hmem) g.serials
    · intro connectionId
      rw [hlog]
    · intro connectionId
      rw [hlog]
  | answers connectionId serial tokenSet hlog hvault hbefore hafter hbelow =>
    apply vaultOk_kept h g hfailed hvault
    · intro other serial' tokenSet' hmem
      rw [hlog] at hmem
      rcases mem_cons.mp hmem with heq | hold
      · obtain ⟨rfl, rfl, rfl⟩ := Event.answered.inj heq
        exact hbelow
      · exact Nat.lt_of_lt_of_le (h.below other serial' tokenSet' hold) g.serials
    · intro other
      rw [hlog]
      rfl
    · intro other
      rw [hlog]
      rfl
  | stores r hlog hvault hbefore hafter hsafe hnewer howned hanswered =>
    apply vaultOk_set h g hfailed hlog hvault hsafe howned hanswered
    · exact nofun
    · intro connectionId hg
      rw [gone, Bool.and_eq_true, bne_iff_ne] at hg
      exact ⟨Ne.symm hg.1, hg.2⟩
    · intro connectionId
      rfl
  | rewrites existing r hlog hvault hbefore hafter hsafe hread hnewer howned hanswered =>
    apply vaultOk_set h g hfailed hlog hvault hsafe howned hanswered
    · exact nofun
    · intro connectionId hg
      have hold : gone connectionId store.log = true := hg
      refine ⟨?_, hold⟩
      intro hc
      have hnone := h.gone connectionId hold
      rw [hc, hread] at hnone
      cases hnone
    · intro connectionId
      rfl
  | deletes connectionId hlog hvault hbefore hafter =>
    exact vaultOk_delete h g hfailed hlog hvault

end

end

end Growth

/-! ## The steps of the calls -/

section Steps

variable {config : Config} {store store' : Store} {i : Nat} {c : Choice} {phase phase' : Phase}

theorem flows_tokens (h : FlowsOk store) (vault : OMap String Stored) (serials : Nat)
    (resolved : List (String × Identity)) (log : List Event) (failed : List String) :
    FlowsOk { store with vault, serials, resolved, log, failed } :=
  { h with }

theorem sound_idle (h : FlowsOk store) (hholds : holds phase' = holds phase)
    (hphase : PhaseOk config store i phase') : Sound config store store i phase phase' :=
  ⟨h, grows_refl store i, .same rfl rfl hholds, hphase, rfl⟩

variable {stateId : String} {row : StateRow}

theorem findState_spec (h : findState store stateId = some row) :
    row ∈ store.states ∧ row.flow.stateId = stateId := by
  refine ⟨mem_of_find?_eq_some h, ?_⟩
  have hid := find?_some h
  simpa using hid

variable {flow : Flow}

theorem flow_unique (h : FlowsOk store) {flow' : Flow} (hflow : flow ∈ store.started)
    (hflow' : flow' ∈ store.started) (hid : flow.stateId = flow'.stateId) : flow = flow' :=
  inj_on_of_nodup_map h.ids hflow hflow' hid

theorem start_sound (h : FlowsOk store) (hphase : PhaseOk config store i phase)
    (hstep : start store flow c phase = some (store', phase')) :
    Sound config store store' i phase phase' := by
  cases phase with
  | entered =>
    simp only [start] at hstep
    split at hstep
    · cases hstep
      exact sound_idle h rfl trivial
    rename_i hworks
    split at hstep
    · cases hstep
    rename_i hfresh
    cases hstep
    simp only [Bool.or_eq_true, Bool.not_eq_true', not_or, Bool.not_eq_false] at hworks
    have hnew : flow.stateId ∉ store.started.map Flow.stateId := by
      intro hmem
      obtain ⟨other, hother, hid⟩ := mem_map.mp hmem
      exact hfresh (any_eq_true.mpr ⟨other, hother, decide_eq_true hid⟩)
    refine ⟨⟨nodup_cons.mpr ⟨hnew, h.ids⟩, ?_, ?_, ?_, h.consumedOnce, ?_, ?_,
      h.exchangedConsumed, h.exchangedOnce⟩, ?_, .same rfl rfl rfl, mem_cons_self, rfl⟩
    · intro other hother
      rcases mem_cons.mp hother with rfl | hold
      · exact hworks.2
      · exact h.named other hold
    · intro row hrow
      rcases mem_append.mp hrow with hold | hlast
      · exact mem_cons_of_mem _ (h.rows row hold)
      · rw [mem_singleton.mp hlast]
        exact mem_cons_self
    · intro stateId connectionId hpending
      obtain ⟨other, hother, hrest⟩ := h.pending stateId connectionId hpending
      exact ⟨other, mem_cons_of_mem _ hother, hrest⟩
    · intro row hrow hconsumed
      rcases mem_append.mp hrow with hold | hlast
      · exact h.consumedRows row hold hconsumed
      · rw [mem_singleton.mp hlast] at hconsumed
        obtain ⟨p, hp, hid⟩ := mem_map.mp hconsumed
        exact absurd (hid ▸ h.consumedStarted p hp) hnew
    · intro p hp
      exact mem_cons_of_mem _ (h.consumedStarted p hp)
    · exact { grows_refl store i with started := fun _ => mem_cons_of_mem _ }
  | registered other =>
    have hstarted : other ∈ store.started := hphase
    simp only [start] at hstep
    split at hstep
    · rename_i tenantId userId connectionId hsubject
      split at hstep
      · cases hstep
        exact sound_idle h rfl trivial
      cases hstep
      refine ⟨{ h with pending := ?_ }, ?_, .same rfl rfl rfl, trivial, rfl⟩
      · intro stateId connectionId' hpending
        rw [get_set] at hpending
        split at hpending
        · rename_i hid
          cases hpending
          exact ⟨other, hstarted, hid.symm, tenantId, userId, hsubject⟩
        · exact h.pending stateId connectionId' hpending
      · exact { grows_refl store i with }
    · cases hstep
      exact sound_idle h rfl trivial
  | _ => cases hstep

theorem flows_consume (i : Nat) (h : FlowsOk store) (hfind : findState store stateId = some row)
    (hnot : row.consumed = false) :
    stateId ∉ store.consumptions.map Prod.fst ∧
      FlowsOk { store with
        states := store.states.map fun other =>
          if other.flow.stateId = stateId then { other with consumed := true } else other
        consumptions := (stateId, i) :: store.consumptions } := by
  obtain ⟨hmem, hid⟩ := findState_spec hfind
  have hnew : stateId ∉ store.consumptions.map Prod.fst := by
    intro hconsumed
    have hmarked := h.consumedRows row hmem (hid ▸ hconsumed)
    rw [hnot] at hmarked
    cases hmarked
  have hrows : ∀ row' ∈ store.states.map (fun other : StateRow =>
      if other.flow.stateId = stateId then { other with consumed := true } else other),
      ∃ old ∈ store.states, row'.flow = old.flow ∧
        (old.flow.stateId = stateId → row'.consumed = true) ∧
          (old.flow.stateId ≠ stateId → row' = old) := by
    refine forall_mem_map.mpr fun old hold => ?_
    by_cases hsame : old.flow.stateId = stateId
    · rw [if_pos hsame]
      exact ⟨old, hold, rfl, fun _ => rfl, fun hne => absurd hsame hne⟩
    · rw [if_neg hsame]
      exact ⟨old, hold, rfl, fun heq => absurd heq hsame, fun _ => rfl⟩
  refine ⟨hnew, h.ids, h.named, ?_, h.pending, nodup_cons.mpr ⟨hnew, h.consumedOnce⟩, ?_, ?_,
    fun p hp => mem_cons_of_mem _ (h.exchangedConsumed p hp), h.exchangedOnce⟩
  · intro row' hrow'
    obtain ⟨old, hold, hflow, -⟩ := hrows row' hrow'
    rw [hflow]
    exact h.rows old hold
  · intro row' hrow' hconsumed
    obtain ⟨old, hold, hflow, hmarked, hkept⟩ := hrows row' hrow'
    by_cases hsame : old.flow.stateId = stateId
    · exact hmarked hsame
    · rw [hkept hsame] at hconsumed ⊢
      rcases mem_cons.mp hconsumed with heq | hbefore
      · exact absurd heq hsame
      · exact h.consumedRows old hold hbefore
  · intro p hp
    rcases mem_cons.mp hp with rfl | hold
    · exact mem_map.mpr ⟨row.flow, h.rows row hmem, hid⟩
    · exact h.consumedStarted p hold

/-- The state is exchanged by the call that has consumed it. -/
theorem flows_exchange (h : FlowsOk store) (hconsumed : (stateId, i) ∈ store.consumptions)
    (hnot : (stateId, i) ∉ store.exchanges) :
    FlowsOk { store with exchanges := (stateId, i) :: store.exchanges } := by
  refine { h with
    exchangedConsumed := ?_
    exchangedOnce := nodup_cons.mpr ⟨?_, h.exchangedOnce⟩ }
  · intro p hp
    rcases mem_cons.mp hp with rfl | hold
    · exact hconsumed
    · exact h.exchangedConsumed p hold
  · intro hmem
    obtain ⟨p, hp, hid⟩ := mem_map.mp hmem
    have hsame : p = (stateId, i) :=
      inj_on_of_nodup_map h.consumedOnce (h.exchangedConsumed p hp) hconsumed hid
    exact hnot (hsame ▸ hp)

/-- The connection that the callback takes is the one of the state's subject. -/
theorem pending_target (h : FlowsOk store) (hflow : flow ∈ store.started) {tenantId userId : String}
    {connectionId : Option String}
    (hsubject : flow.subject = .connection tenantId userId connectionId) :
    (store.pendingConnectionByState.get flow.stateId).getD
      (ownConnection flow.stateId connectionId) = ownConnection flow.stateId connectionId := by
  cases hpending : store.pendingConnectionByState.get flow.stateId with
  | none => rfl
  | some pending =>
    obtain ⟨other, hother, hid, tenantId', userId', hsubject'⟩ := h.pending _ _ hpending
    rw [flow_unique h hother hflow hid, hsubject] at hsubject'
    obtain ⟨-, -, rfl⟩ := Subject.connection.inj hsubject'
    rfl

variable {providerId : String} {tokenSet : TokenSet} {serial : Nat}

theorem persistTokenSet_cases {tenantId userId target flow : String}
    (h : persistTokenSet config c tenantId userId providerId target flow tokenSet serial = some r) :
    config.storageSafe = true ∧ r.record.tenantId = tenantId ∧ r.record.userId = userId ∧
      r.record.connectionId = target ∧ r.record.tokenSet = tokenSet ∧ r.flow = flow ∧
        r.serial = serial := by
  simp only [persistTokenSet] at h
  split at h
  · cases h
  · rename_i hsafe
    cases h
    simp only [not_or, Bool.not_eq_false] at hsafe
    exact ⟨hsafe.2.2, rfl, rfl, rfl, rfl, rfl, rfl⟩

variable {redirectUri : String}

section

variable (h : FlowsOk store)
include h

theorem exchanged_sound {providerId : Option String}
    (hphase : PhaseOk config store i (.exchanged flow tokenSet serial))
    (hguard : orderlyAt store c (.exchanged flow tokenSet serial) = true)
    (hstep : handleCallback config store i providerId stateId redirectUri c
      (.exchanged flow tokenSet serial) = some (store', phase')) :
    Sound config store store' i (.exchanged flow tokenSet serial) phase' := by
  obtain ⟨hstarted, hserial, hanswered⟩ := hphase
  simp only [handleCallback] at hstep
  cases hfind : findState store flow.stateId with
  | none =>
    rw [orderlyAt, hfind] at hguard
    cases hguard
  | some row =>
    obtain ⟨hmem, hid⟩ := findState_spec hfind
    have hsame : row.flow = flow := flow_unique h (h.rows row hmem) hstarted hid
    rw [hfind] at hstep
    simp only [hsame] at hstep
    have hdeleted : FlowsOk { store with
        pendingConnectionByState := store.pendingConnectionByState.delete flow.stateId } := by
      refine { h with pending := ?_ }
      intro stateId' connectionId hpending
      rw [get_delete] at hpending
      split at hpending
      · cases hpending
      · exact h.pending stateId' connectionId hpending
    have hgrows : Grows i store { store with
        pendingConnectionByState := store.pendingConnectionByState.delete flow.stateId } :=
      { grows_refl store i with }
    cases hsubject : flow.subject with
    | browserAuth intentId =>
      rw [hsubject] at hstep
      cases hstep
      refine sound_idle h ?_ ⟨hstarted, hserial, intentId, hsubject⟩
      simp only [holds, hsubject]
    | connection tenantId userId connectionId =>
      simp only [hsubject, pending_target h hstarted hsubject] at hstep
      have hholds : holds (.exchanged flow tokenSet serial) =
          some (ownConnection flow.stateId connectionId, serial) := by
        simp only [holds, hsubject]
      split at hstep
      · rename_i hrefused
        cases hstep
        have hplain : config.storageSafe = false := by
          have hnamed := h.named flow hstarted
          simp only [hsubject, Subject.named, Bool.and_eq_true, bne_iff_ne] at hnamed
          simpa [persistTokenSet, hnamed.1, hnamed.2] using hrefused
        exact ⟨hdeleted, hgrows, .drops rfl rfl hplain rfl, trivial, rfl⟩
      · rename_i r hpersist
        cases hstep
        obtain ⟨hsafe, htenant, huser, htarget, htoken, hflow, hrserial⟩ :=
          persistTokenSet_cases hpersist
        refine ⟨hdeleted, hgrows, .same rfl rfl ?_, ⟨?_, hsafe, ?_⟩, rfl⟩
        · rw [hholds, holds, htarget, hrserial]
        · refine ⟨flow, hstarted, hflow.symm, ?_⟩
          simp only [Owns, hsubject]
          exact ⟨htenant, huser, htarget⟩
        · rw [htarget, htoken, hrserial]
          exact hanswered _ hholds

theorem callback_sound {providerId : Option String} (hphase : PhaseOk config store i phase)
    (hguard : orderlyAt store c phase = true)
    (hstep : handleCallback config store i providerId stateId redirectUri c phase =
      some (store', phase')) : Sound config store store' i phase phase' := by
  cases phase with
  | entered =>
    simp only [handleCallback] at hstep
    split at hstep
    · cases hstep
      exact sound_idle h rfl trivial
    · cases hstep
      split
      · exact sound_idle h rfl trivial
      · exact sound_idle h rfl trivial
  | previewed found =>
    simp only [handleCallback] at hstep
    split at hstep
    · cases hstep
      exact sound_idle h rfl trivial
    split at hstep
    · cases hstep
      exact sound_idle h rfl trivial
    rename_i row hfind
    split at hstep
    · cases hstep
      exact sound_idle h rfl trivial
    rename_i hlive
    cases hstep
    rw [not_or, Bool.not_eq_true] at hlive
    obtain ⟨hmem, hid⟩ := findState_spec hfind
    obtain ⟨hnew, hflows⟩ := flows_consume i h hfind hlive.1
    refine ⟨hflows, ?_, ?_, ?_, rfl⟩
    · exact { grows_refl store i with consumptions := fun _ => mem_cons_of_mem _ }
    · refine .same rfl rfl ?_
      split <;> rfl
    split
    · trivial
    refine ⟨h.rows row hmem, ?_, ?_⟩
    · rw [hid]
      exact mem_cons_self
    · intro hexchanged
      apply hnew
      rw [hid] at hexchanged
      exact mem_map.mpr ⟨_, h.exchangedConsumed _ hexchanged, rfl⟩
  | consumed flow =>
    obtain ⟨hstarted, hconsumed, hnot⟩ := hphase
    simp only [handleCallback] at hstep
    split at hstep
    · cases hstep
      exact sound_idle h rfl trivial
    cases hstep
    refine ⟨flows_exchange h hconsumed hnot, ?_, .same rfl rfl rfl, hstarted, rfl⟩
    refine { grows_refl store i with exchanges := ?_ }
    intro p hp
    rcases mem_cons.mp hp with rfl | hold
    · exact .inr rfl
    · exact .inl hold
  | exchanging flow =>
    have hstarted : flow ∈ store.started := hphase
    simp only [handleCallback] at hstep
    split at hstep
    · cases hstep
      exact sound_idle h rfl trivial
    cases hstep
    refine ⟨flows_tokens h _ _ _ _ _, ?_, ?_, ⟨hstarted, Nat.lt_succ_self _, ?_⟩, rfl⟩
    · refine { grows_refl store i with serials := Nat.le_succ _, log := ?_ }
      intro e he
      show e ∈ (match flow.subject with
        | .connection _ _ connectionId =>
          Event.answered (ownConnection flow.stateId connectionId) store.serials c.response ::
            store.log
        | .browserAuth _ => store.log)
      split
      · exact mem_cons_of_mem _ he
      · exact he
    · cases hsubject : flow.subject with
      | connection tenantId userId connectionId =>
        refine Effect.answers (ownConnection flow.stateId connectionId) store.serials c.response
          ?_ ?_ rfl ?_ (Nat.lt_succ_self _)
        · rfl
        · rfl
        · simp only [holds, hsubject]
      | browserAuth intentId =>
        refine Effect.same ?_ ?_ ?_
        · rfl
        · rfl
        · simp only [holds, hsubject]
    · intro connectionId hholds
      cases hsubject : flow.subject with
      | connection tenantId userId connectionId' =>
        simp only [holds, hsubject] at hholds
        obtain ⟨rfl, -⟩ := Prod.mk.inj (Option.some.inj hholds)
        exact mem_cons_self
      | browserAuth intentId =>
        simp only [holds, hsubject] at hholds
        cases hholds
  | exchanged flow tokenSet serial => exact exchanged_sound h hphase hguard hstep
  | identifying flow tokenSet serial =>
    obtain ⟨hstarted, hserial, intentId, hsubject⟩ := hphase
    simp only [handleCallback] at hstep
    split at hstep
    · cases hstep
      exact sound_idle h rfl trivial
    split at hstep
    · cases hstep
      exact sound_idle h rfl trivial
    rename_i identity _
    split at hstep
    · cases hstep
      exact sound_idle h rfl trivial
    split at hstep
    · cases hstep
      exact sound_idle h rfl trivial
    rename_i r hpersist
    cases hstep
    obtain ⟨hsafe, htenant, huser, htarget, htoken, hflow, hrserial⟩ :=
      persistTokenSet_cases hpersist
    have hgrows : Grows i store { store with
        resolved := (flow.stateId, identity) :: store.resolved
        log := .answered (ownConnection flow.stateId identity.connectionId) serial tokenSet ::
          store.log } :=
      { grows_refl store i with
        resolved := fun _ => mem_cons_of_mem _
        log := fun _ => mem_cons_of_mem _ }
    refine ⟨flows_tokens h _ _ _ _ _, hgrows, ?_, ⟨?_, hsafe, ?_⟩, rfl⟩
    · refine .answers (ownConnection flow.stateId identity.connectionId) serial tokenSet
        rfl rfl rfl ?_ hserial
      rw [holds, htarget, hrserial]
    · refine ⟨flow, hstarted, hflow.symm, ?_⟩
      simp only [Owns, hsubject]
      exact ⟨identity, mem_cons_self, htenant, huser, htarget⟩
    · rw [htarget, htoken, hrserial]
      exact mem_cons_self
  | persisting r =>
    obtain ⟨howned, hsafe, hanswered⟩ := hphase
    cases hstep
    have hgrows : Grows i store { store with
        vault := store.vault.set r.record.connectionId r
        log := .stored r.record.connectionId r.serial :: store.log } :=
      { grows_refl store i with log := fun _ => mem_cons_of_mem _ }
    refine ⟨flows_tokens h _ _ _ _ _, hgrows, ?_, trivial, rfl⟩
    refine .stores r rfl rfl rfl rfl hsafe ?_ (owned_grows hgrows howned) hanswered
    intro w hw hc
    exact of_decide_eq_true (all_eq_true.mp hguard w hw) hc
  | connecting flow =>
    simp only [handleCallback] at hstep
    split at hstep
    · rename_i hfails
      rw [orderlyAt, hfails] at hguard
      cases hguard
    · cases hstep
      exact sound_idle h rfl trivial
  | _ => cases hstep

theorem refresh_sound (hv : VaultOk config store) (hphase : PhaseOk config store i phase)
    (hguard : orderlyAt store c phase = true)
    (hstep : refresh config store connectionId providerId c phase = some (store', phase')) :
    Sound config store store' i phase phase' := by
  cases phase with
  | entered =>
    simp only [refresh] at hstep
    split at hstep
    · cases hstep
      exact sound_idle h rfl trivial
    split at hstep
    · cases hstep
      exact sound_idle h rfl trivial
    rename_i existing hget
    split at hstep
    · cases hstep
      exact sound_idle h rfl trivial
    · cases hstep
      have hanswered := hv.answered connectionId existing hget
      exact sound_idle h rfl ⟨(hv.owned connectionId existing hget).2, hv.below _ _ _ hanswered⟩
  | refreshing existing =>
    obtain ⟨howned, hserial⟩ := hphase
    simp only [refresh] at hstep
    split at hstep
    · cases hstep
      exact sound_idle h rfl trivial
    cases hstep
    have hgrows : Grows i store { store with
        serials := store.serials + 1
        log := .answered existing.record.connectionId store.serials
          (mergeRefreshTokenSet existing.record.tokenSet c.response) :: store.log } :=
      { grows_refl store i with
        serials := Nat.le_succ _
        log := fun _ => mem_cons_of_mem _ }
    refine ⟨flows_tokens h _ _ _ _ _, hgrows, ?_, ⟨?_, rfl, hserial, mem_cons_self⟩, rfl⟩
    · exact .answers existing.record.connectionId store.serials _ rfl rfl rfl rfl
        (Nat.lt_succ_self _)
    obtain ⟨flow, hflow, hid, howns⟩ := owned_grows hgrows howned
    refine ⟨flow, hflow, hid, ?_⟩
    revert howns
    cases flow.subject with
    | connection tenantId userId connectionId | browserAuth intentId => exact fun hx => hx
  | rewriting existing r =>
    obtain ⟨howned, hconnection, hnewer, hanswered⟩ := hphase
    have hread := of_decide_eq_true hguard
    have hholds : holds (.rewriting existing r) = some (r.record.connectionId, r.serial) := by
      rw [holds, hconnection]
    simp only [refresh] at hstep
    split at hstep
    · rename_i hplain
      cases hstep
      exact ⟨h, grows_refl store i, .drops rfl rfl hplain rfl, trivial, rfl⟩
    rename_i hsafe
    rw [Bool.not_eq_false] at hsafe
    cases hstep
    have hgrows : Grows i store { store with
        vault := store.vault.set r.record.connectionId r
        log := .rewrote r.record.connectionId r.serial :: store.log } :=
      { grows_refl store i with log := fun _ => mem_cons_of_mem _ }
    refine ⟨flows_tokens h _ _ _ _ _, hgrows, ?_, trivial, rfl⟩
    rw [← hconnection] at hread
    exact .rewrites existing r rfl rfl hholds rfl hsafe hread hnewer (owned_grows hgrows howned)
      hanswered
  | _ => cases hstep

theorem disconnect_sound {revokeRemote : Bool}
    (hstep : disconnect config store connectionId providerId revokeRemote c phase =
      some (store', phase')) : Sound config store store' i phase phase' := by
  cases phase with
  | entered =>
    simp only [disconnect] at hstep
    split at hstep
    · cases hstep
      exact sound_idle h rfl trivial
    split at hstep
    · cases hstep
      exact sound_idle h rfl trivial
    split at hstep
    · cases hstep
      exact sound_idle h rfl trivial
    · cases hstep
      split
      · exact sound_idle h rfl trivial
      · exact sound_idle h rfl trivial
  | revoking | disconnecting revokeFailed =>
    cases hstep
    exact sound_idle h rfl trivial
  | deleting revokeFailed =>
    cases hstep
    refine ⟨flows_tokens h _ _ _ _ _, ?_, .deletes connectionId rfl rfl rfl rfl, trivial, rfl⟩
    exact { grows_refl store i with log := fun _ => mem_cons_of_mem _ }
  | _ => cases hstep

theorem deleteExpired_sound {before : Int}
    (hstep : deleteExpired store before phase = some (store', phase')) :
    Sound config store store' i phase phase' := by
  cases phase with
  | entered =>
    cases hstep
    refine ⟨{ h with rows := ?_, consumedRows := ?_ }, { grows_refl store i with },
      .same rfl rfl rfl, trivial, rfl⟩
    · intro row hrow
      exact h.rows row (mem_of_mem_filter hrow)
    · intro row hrow
      exact h.consumedRows row (mem_of_mem_filter hrow)
  | _ => cases hstep

theorem advance_sound {call : Call} (hv : VaultOk config store)
    (hphase : PhaseOk config store i call.phase) (hguard : orderlyAt store c call.phase = true)
    (hstep : advance config store i call c = some (store', phase')) :
    Sound config store store' i call.phase phase' := by
  obtain ⟨request, phase⟩ := call
  cases request with
  | start flow => exact start_sound h hphase hstep
  | handleCallback providerId stateId redirectUri => exact callback_sound h hphase hguard hstep
  | refresh connectionId providerId => exact refresh_sound h hv hphase hguard hstep
  | disconnect connectionId providerId revokeRemote => exact disconnect_sound h hstep
  | deleteExpired before => exact deleteExpired_sound h hstep

end

end Steps

/-! ## Runs -/

/-- Every answer was written, or a call still holds it. -/
def Accounted (config : Config) (s : Service) : Prop :=
  config.storageSafe = true → ∀ connectionId serial tokenSet,
    .answered connectionId serial tokenSet ∈ s.shared.log →
      (connectionId, serial) ∈ s.shared.log.filterMap Event.written ∨
        ∃ call ∈ s.procs, holds call.phase = some (connectionId, serial)

/-- The stored token is the latest, but for those that a call still holds. -/
def Latest (s : Service) : Prop :=
  ∀ connectionId r, s.shared.vault.get connectionId = some r → ∀ serial tokenSet,
    .answered connectionId serial tokenSet ∈ s.shared.log →
      serial ≤ r.serial ∨ ∃ call ∈ s.procs, holds call.phase = some (connectionId, serial)

structure Inv (config : Config) (s : Service) : Prop where
  flows : FlowsOk s.shared
  vault : VaultOk config s.shared
  phases : Each (fun store i call => PhaseOk config store i call.phase) s
  accounted : Accounted config s
  latest : Latest s

theorem inv_service (config : Config) : Inv config service where
  flows := by
    refine ⟨nodup_nil, forall_mem_nil _, forall_mem_nil _, ?_, nodup_nil,
      forall_mem_nil _, forall_mem_nil _, forall_mem_nil _, nodup_nil⟩
    exact nofun
  vault := by
    refine ⟨?_, ?_, ?_, ?_, fun _ => rfl, fun _ _ => rfl, rfl⟩
    · intro connectionId r h
      cases h
    · intro connectionId r h
      cases h
    · intro connectionId serial tokenSet h
      cases h
    · intro connectionId _
      rfl
  phases := each_nil _ _
  accounted := by
    intro _ connectionId serial tokenSet h
    cases h
  latest := by
    intro connectionId r h
    cases h

section Moves

variable {config : Config} {s : Service} {i : Nat} {call call' : Call} {store' : Store}
  {x : String × Nat}

theorem holder_moved (call' : Call) (hcall : s.procs[i]? = some call)
    (h : ∃ other ∈ s.procs, holds other.phase = some x) :
    holds call.phase = some x ∨ ∃ other ∈ s.procs.set i call', holds other.phase = some x :=
  exists_set call' hcall h

theorem holder_kept (hcall : s.procs[i]? = some call)
    (h : ∃ other ∈ s.procs, holds other.phase = some x)
    (hkept : holds call.phase = some x → holds call'.phase = some x) :
    ∃ other ∈ s.procs.set i call', holds other.phase = some x := by
  rcases holder_moved call' hcall h with hown | hother
  · exact ⟨call', moved_mem call' hcall, hkept hown⟩
  · exact hother

theorem accounted_written (hcall : s.procs[i]? = some call) {y : String × Nat} {e : Event}
    (hbefore : holds call.phase = some y) (hwritten : Event.written e = some y)
    (h : x ∈ s.shared.log.filterMap Event.written ∨ ∃ other ∈ s.procs, holds other.phase = some x) :
    x ∈ (e :: s.shared.log).filterMap Event.written ∨
      ∃ other ∈ s.procs.set i call', holds other.phase = some x := by
  rw [filterMap_cons_some hwritten]
  rcases h with hold | hholder
  · exact .inl (mem_cons_of_mem _ hold)
  · rcases holder_moved call' hcall hholder with hown | hother
    · rw [hbefore] at hown
      exact .inl (Option.some.inj hown ▸ mem_cons_self)
    · exact .inr hother

theorem accounted_move (h : Accounted config s) (hcall : s.procs[i]? = some call)
    (e : Effect config s.shared store' call.phase call'.phase) :
    Accounted config ⟨store', s.procs.set i call'⟩ := by
  intro hsafe connectionId serial tokenSet hmem
  have hold := h hsafe connectionId serial tokenSet
  cases e with
  | same hlog hvault hholds =>
    simp only [hlog] at hmem ⊢
    refine (hold hmem).imp_right fun hx => ?_
    exact holder_kept hcall hx fun hown => hholds.trans hown
  | drops hlog hvault hplain hafter =>
    rw [hplain] at hsafe
    cases hsafe
  | answers other n ts hlog hvault hbefore hafter hbelow =>
    simp only [hlog] at hmem ⊢
    rcases mem_cons.mp hmem with heq | hin
    · obtain ⟨rfl, rfl, rfl⟩ := Event.answered.inj heq
      exact .inr ⟨call', moved_mem call' hcall, hafter⟩
    · refine (hold hin).imp_right fun hx => ?_
      refine holder_kept hcall hx fun hown => ?_
      rw [hbefore] at hown
      cases hown
  | stores r hlog hvault hbefore hafter hsafe' hnewer howned hanswered =>
    simp only [hlog] at hmem ⊢
    rcases mem_cons.mp hmem with heq | hin
    · cases heq
    · exact accounted_written hcall hbefore rfl (hold hin)
  | rewrites existing r hlog hvault hbefore hafter hsafe' hread hnewer howned hanswered =>
    simp only [hlog] at hmem ⊢
    rcases mem_cons.mp hmem with heq | hin
    · cases heq
    · exact accounted_written hcall hbefore rfl (hold hin)
  | deletes other hlog hvault hbefore hafter =>
    simp only [hlog] at hmem ⊢
    rcases mem_cons.mp hmem with heq | hin
    · cases heq
    · refine (hold hin).imp_right fun hx => ?_
      refine holder_kept hcall hx fun hown => ?_
      rw [hbefore] at hown
      cases hown

theorem latest_written (h : Latest s) (hcall : s.procs[i]? = some call)
    (hvault : store'.vault = s.shared.vault.set r.record.connectionId r)
    (hbefore : holds call.phase = some (r.record.connectionId, r.serial))
    (hlog : ∀ connectionId serial tokenSet, .answered connectionId serial tokenSet ∈ store'.log →
      .answered connectionId serial tokenSet ∈ s.shared.log)
    (hnewer : ∀ serial tokenSet, .answered r.record.connectionId serial tokenSet ∈ s.shared.log →
      serial ≤ r.serial ∨
        ∃ other ∈ s.procs, holds other.phase = some (r.record.connectionId, serial)) :
    Latest ⟨store', s.procs.set i call'⟩ := by
  intro connectionId r' hget serial tokenSet hmem
  have hin := hlog connectionId serial tokenSet hmem
  simp only [hvault, get_set] at hget
  split at hget
  · rename_i hc
    cases hget
    subst hc
    rcases hnewer serial tokenSet hin with hle | hholder
    · exact .inl hle
    rcases holder_moved call' hcall hholder with hown | hother
    · rw [hbefore] at hown
      obtain ⟨-, rfl⟩ := Prod.mk.inj (Option.some.inj hown)
      exact .inl le_rfl
    · exact .inr hother
  · rename_i hc
    refine (h connectionId r' hget serial tokenSet hin).imp_right fun hx => ?_
    refine holder_kept hcall hx fun hown => ?_
    rw [hbefore] at hown
    obtain ⟨rfl, -⟩ := Prod.mk.inj (Option.some.inj hown)
    exact absurd rfl hc

theorem latest_move (h : Latest s) (ha : Accounted config s) (hv : VaultOk config s.shared)
    (hcall : s.procs[i]? = some call)
    (e : Effect config s.shared store' call.phase call'.phase) :
    Latest ⟨store', s.procs.set i call'⟩ := by
  cases e with
  | same hlog hvault hholds =>
    intro connectionId r hget serial tokenSet hmem
    simp only [hvault] at hget
    simp only [hlog] at hmem
    refine (h connectionId r hget serial tokenSet hmem).imp_right fun hx => ?_
    exact holder_kept hcall hx fun hown => hholds.trans hown
  | drops hlog hvault hplain hafter =>
    intro connectionId r hget serial tokenSet hmem
    simp only [hvault] at hget
    rw [hv.plainEmpty hplain] at hget
    cases hget
  | answers other n ts hlog hvault hbefore hafter hbelow =>
    intro connectionId r hget serial tokenSet hmem
    simp only [hvault] at hget
    simp only [hlog] at hmem
    rcases mem_cons.mp hmem with heq | hin
    · obtain ⟨rfl, rfl, rfl⟩ := Event.answered.inj heq
      exact .inr ⟨call', moved_mem call' hcall, hafter⟩
    · refine (h connectionId r hget serial tokenSet hin).imp_right fun hx => ?_
      refine holder_kept hcall hx fun hown => ?_
      rw [hbefore] at hown
      cases hown
  | stores r hlog hvault hbefore hafter hsafe hnewer howned hanswered =>
    apply latest_written h hcall hvault hbefore
    · intro connectionId serial tokenSet hmem
      rw [hlog] at hmem
      exact (mem_cons.mp hmem).resolve_left fun heq => by cases heq
    · intro serial tokenSet hmem
      rcases ha hsafe _ serial tokenSet hmem with hwritten | hholder
      · exact .inl (Nat.le_of_lt (hnewer _ hwritten rfl))
      · exact .inr hholder
  | rewrites existing r hlog hvault hbefore hafter hsafe hread hnewer howned hanswered =>
    apply latest_written h hcall hvault hbefore
    · intro connectionId serial tokenSet hmem
      rw [hlog] at hmem
      exact (mem_cons.mp hmem).resolve_left fun heq => by cases heq
    · intro serial tokenSet hmem
      refine (h _ existing hread serial tokenSet hmem).imp_left fun hle => ?_
      exact Nat.le_trans hle (Nat.le_of_lt hnewer)
  | deletes other hlog hvault hbefore hafter =>
    intro connectionId r hget serial tokenSet hmem
    simp only [hvault, get_delete] at hget
    simp only [hlog] at hmem
    split at hget
    · cases hget
    have hin := (mem_cons.mp hmem).resolve_left fun heq => by cases heq
    refine (h connectionId r hget serial tokenSet hin).imp_right fun hx => ?_
    refine holder_kept hcall hx fun hown => ?_
    rw [hbefore] at hown
    cases hown

end Moves

theorem inv_step (config : Config) (s : Service) (a : Act Request Choice) (s' : Service)
    (h : Inv config s) (hg : Orderly s a = true) (hstep : step config s a = some s') :
    Inv config s' := by
  rcases act_cases hstep with ⟨request, rfl, rfl⟩ | ⟨i, c, call, store', call', rfl, hcall, hnext, rfl⟩
  · refine ⟨h.flows, h.vault, each_spawn h.phases trivial, ?_, ?_⟩
    · intro hsafe connectionId serial tokenSet hmem
      refine (h.accounted hsafe connectionId serial tokenSet hmem).imp_right ?_
      rintro ⟨other, hother, hholds⟩
      exact ⟨other, mem_append_left _ hother, hholds⟩
    · intro connectionId r hget serial tokenSet hmem
      refine (h.latest connectionId r hget serial tokenSet hmem).imp_right ?_
      rintro ⟨other, hother, hholds⟩
      exact ⟨other, mem_append_left _ hother, hholds⟩
  · obtain ⟨r, hadvance, hr⟩ := Option.map_eq_some_iff.mp hnext
    obtain ⟨rfl, rfl⟩ := Prod.mk.inj hr
    have hguard : orderlyAt s.shared c call.phase = true := by
      rwa [Orderly, hcall, Option.all_some] at hg
    have hsound := advance_sound h.flows h.vault (h.phases i call hcall) hguard hadvance
    refine ⟨hsound.flows, vaultOk_effect h.vault hsound.grows hsound.failed hsound.effect, ?_, ?_, ?_⟩
    · apply each_move
      · exact hsound.phase
      · intro j other hj hother
        exact phaseOk_grows hsound.grows hj (h.phases j other hother)
    · exact accounted_move h.accounted hcall hsound.effect
    · exact latest_move h.latest h.accounted h.vault hcall hsound.effect

/-- Every orderly run of any calls. -/
theorem tokens_kept (config : Config) {acts : List (Act Request Choice)} {s : Service}
    (hg : Guarded (step config) (fun s a => Orderly s a = true) service acts)
    (hr : run (step config) service acts = some s) : TokensKept s := by
  have hinv : Inv config s :=
    guarded_run_invariant (step config) (inv_step config) (inv_service config) hg hr
  refine { hinv.vault with
      once := hinv.flows.exchangedOnce
      succeeded := ?_
      latest := hinv.latest }
  intro connectionId r hget
  rw [hinv.vault.succeeded]
  exact not_mem_nil

section Examples

def google : Config := ⟨fun id => if id = "google" then some true else none, "key", true⟩

def signUp : Flow := ⟨"state", "google", "https://app.example/callback",
  .connection "tenant" "user" (some "connection"), 600⟩

def answered (accessToken refreshToken : String) : Choice :=
  { response := { accessToken, refreshToken := some refreshToken } }

/-- A connection is started and its callback stores the first token. -/
def connecting : List (Act Request Choice) :=
  [.spawn (.start signUp), .move 0 {}, .move 0 {},
    .spawn (.handleCallback none "state" "https://app.example/callback"), .move 1 {}, .move 1 {},
    .move 1 {}, .move 1 (answered "one" "refreshOne"), .move 1 { tokenId := "token" }, .move 1 {},
    .move 1 {}]

/-- Refreshed and disconnected, one after the other. -/
def inOrder : List (Act Request Choice) := connecting ++
  [.spawn (.refresh "connection" "google"), .move 2 {}, .move 2 (answered "two" "refreshTwo"),
    .move 2 {}, .spawn (.disconnect "connection" "google" true), .move 3 {}, .move 3 {}, .move 3 {},
    .move 3 {}]

theorem inOrder_kept : ∃ s, run (step google) service inOrder = some s ∧ TokensKept s := by
  obtain ⟨s, hs⟩ := Option.isSome_iff_exists.mp
    (by decide +kernel : (run (step google) service inOrder).isSome = true)
  exact ⟨s, hs, tokens_kept google (by decide +kernel) hs⟩

/-- The provider has answered a refresh when the connection is disconnected. -/
def overtaken : List (Act Request Choice) := connecting ++
  [.spawn (.refresh "connection" "google"), .move 2 {}, .move 2 (answered "two" "refreshTwo"),
    .spawn (.disconnect "connection" "google" true), .move 3 {}, .move 3 {}, .move 3 {}, .move 3 {},
    .move 2 {}]

/-- Two refreshes, written in the other order than answered. -/
def crossed : List (Act Request Choice) := connecting ++
  [.spawn (.refresh "connection" "google"), .move 2 {},
    .spawn (.refresh "connection" "google"), .move 3 {}, .move 2 (answered "two" "refreshTwo"),
    .move 3 (answered "three" "refreshThree"), .move 3 {}, .move 2 {}]

/-- The disconnected connection has its token back, and the older refresh stays for good. -/
theorem late_writes_stay :
    (∃ s, run (step google) service overtaken = some s ∧ ¬ TokensKept s ∧
      gone "connection" s.shared.log = true ∧
        (s.shared.vault.get "connection").map (·.record.tokenSet.accessToken) = some "two") ∧
    ∃ s, run (step google) service crossed = some s ∧ ¬ TokensKept s ∧
      (∀ call ∈ s.procs, call.phase = .done true) ∧
        (s.shared.vault.get "connection").map (·.record.tokenSet.accessToken) = some "two" := by
  constructor
  · obtain ⟨s, hs, hfacts⟩ := Option.any_eq_true _ _ |>.mp (by decide +kernel :
      (run (step google) service overtaken).any (fun s => gone "connection" s.shared.log &&
        decide ((s.shared.vault.get "connection").map (·.record.tokenSet.accessToken) =
          some "two")) = true)
    rw [Bool.and_eq_true, decide_eq_true_iff] at hfacts
    refine ⟨s, hs, fun hkept => ?_, hfacts⟩
    have hnone := hkept.gone "connection" hfacts.1
    rw [hnone] at hfacts
    cases hfacts.2
  · obtain ⟨s, hs, hfacts⟩ := Option.any_eq_true _ _ |>.mp (by decide +kernel :
      (run (step google) service crossed).any (fun s =>
        decide ((∀ call ∈ s.procs, call.phase = .done true) ∧
          (s.shared.vault.get "connection").map (·.record.tokenSet.accessToken) = some "two" ∧
          (s.shared.vault.get "connection").map Stored.serial = some 1 ∧
          Event.answered "connection" 2 ⟨"three", some "refreshThree", none, none, none, none⟩ ∈
            s.shared.log)) = true)
    obtain ⟨hdone, htoken, hserial, hanswered⟩ := of_decide_eq_true hfacts
    refine ⟨s, hs, fun hkept => ?_, hdone, htoken⟩
    obtain ⟨r, hr, hone⟩ := Option.map_eq_some_iff.mp hserial
    rcases hkept.latest "connection" r hr 2 _ hanswered with hle | ⟨call, hcall, hholds⟩
    · omega
    · rw [hdone call hcall] at hholds
      cases hholds

end Examples

end SuperFunctions.Oauth.ConnectionTokens
