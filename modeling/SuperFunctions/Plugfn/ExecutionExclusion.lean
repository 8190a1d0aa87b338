import SuperFunctions.Plugfn.ExecutionClaims

/-!
# Work under one key is exclusive and not replayed

The store always holds what the log of claim events leaves, and that log is legal. What the
workers may then rely on follows from the fate of a claim.
-/
namespace SuperFunctions.Plugfn.ExecutionExclusion

open Lib.OrderedMap.OMap Lib.Processes
open Lib.Transition (run_invariant)
open ExecutionClaims ExecutionCoordinator

/-! ## The invariant -/

/-- The run by which an event happens. -/
def owner : Event → Option Nat
  | .started _ claim => some claim.token
  | .released _ claim => some claim.token
  | .doubted _ claim => some claim.token
  | .reconciled _ _ _ => none
  | .lapsed _ _ _ => none

def Unstarted (log : List Event) (i : Nat) : Prop :=
  ∀ k c, Event.started k c ∈ log → c.token ≠ i

/-- The run has started its work and has not yet ended its claim. -/
structure Owns (log : List Event) (i : Nat) (key : String) (owned : Claim) : Prop where
  token : owned.token = i
  started : Event.started key owned ∈ log
  unreleased : Event.released key owned ∉ log
  undoubted : Event.doubted key owned ∉ log

def PhaseInv (log : List Event) (i : Nat) (key : String) : Phase → Prop
  | .reading => Unstarted log i
  | .acquiring previous owned => Unstarted log i ∧ owned.token = i ∧ owned.state = .running ∧
      ∀ held, previous = some held → held.state = .idle
  | .working owned => Owns log i key owned
  | .releasing owned => Owns log i key owned
  | .transitioning owned _ _ => Owns log i key owned
  | .returned owned => Event.released key owned ∈ log
  | .swapping value now => value.Reconcilable now
  | .checking _ => True
  | .reconciled => True
  | .rejected _ => True

structure Inv (s : Workers) : Prop where
  legal : LegalLog s.shared.log
  store : ∀ key, s.shared.store.get key = claimOn s.shared.log key
  tokens : ∀ k c, Event.started k c ∈ s.shared.log → c.token < s.procs.length
  phases : Each (fun σ i t => PhaseInv σ.log i t.storageKey t.phase) s

/-! ## What the others do -/

variable {log : List Event} {i : Nat} {e : Event}

theorem Unstarted.cons (h : Unstarted log i) (he : owner e ≠ some i) : Unstarted (e :: log) i := by
  intro k c hmem htoken
  rcases List.mem_cons.mp hmem with hnew | hold
  · subst hnew
    exact he (congrArg some htoken)
  · exact h k c hold htoken

variable {key : String} {owned : Claim}

theorem Owns.cons (h : Owns log i key owned) (he : owner e ≠ some i) :
    Owns (e :: log) i key owned := { h with
  started := List.mem_cons_of_mem _ h.started
  unreleased := by
    intro hmem
    rcases List.mem_cons.mp hmem with hnew | hold
    · subst hnew
      exact he (congrArg some h.token)
    · exact h.unreleased hold
  undoubted := by
    intro hmem
    rcases List.mem_cons.mp hmem with hnew | hold
    · subst hnew
      exact he (congrArg some h.token)
    · exact h.undoubted hold }

variable {phase : Phase}

theorem phaseInv_cons (h : PhaseInv log i key phase) (he : owner e ≠ some i) :
    PhaseInv (e :: log) i key phase := by
  cases phase with
  | reading => exact Unstarted.cons h he
  | acquiring previous owned => exact ⟨Unstarted.cons h.1 he, h.2⟩
  | working owned | releasing owned | transitioning owned known error => exact Owns.cons h he
  | returned owned => exact List.mem_cons_of_mem _ h
  | swapping value now => exact h
  | checking expectedToken => trivial
  | reconciled => trivial
  | rejected error => trivial

/-! ## One step -/

/-- What a step of task `t`, which is number `i`, does. -/
structure StepSpec (σ : Shared) (i : Nat) (t : Task) (σ' : Shared) (t' : Task) : Prop where
  events : σ'.log = σ.log ∨ ∃ e, σ'.log = e :: σ.log ∧ (owner e = none ∨ owner e = some i)
  legal : LegalLog σ'.log
  store : ∀ key, σ'.store.get key = claimOn σ'.log key
  key : t'.storageKey = t.storageKey
  phase : PhaseInv σ'.log i t'.storageKey t'.phase

theorem owns_of_started (hlegal : LegalLog log) (hfresh : Unstarted log i)
    (htoken : owned.token = i) : Owns (.started key owned :: log) i key owned := by
  have hnone : ∀ e ∈ log, e.ends ≠ some (key, owned) := by
    intro e he hends
    have hstarted := ends_mem_started hlegal he hends
    exact hfresh _ _ hstarted htoken
  refine ⟨htoken, List.mem_cons_self, fun hmem => ?_, fun hmem => ?_⟩
  · rcases List.mem_cons.mp hmem with hnew | hold
    · cases hnew
    · exact hnone _ hold rfl
  · rcases List.mem_cons.mp hmem with hnew | hold
    · cases hnew
    · exact hnone _ hold rfl

section Step

variable {σ : Shared} {i : Nat} {t : Task} (hlegal : LegalLog σ.log)
  (hstore : ∀ key, σ.store.get key = claimOn σ.log key)

include hlegal hstore

theorem stay_spec (h : PhaseInv σ.log i t.storageKey phase) : StepSpec σ i t σ (t.to phase) :=
  ⟨.inl rfl, hlegal, hstore, rfl, h⟩

theorem swap_spec {expected : Option Claim} {value : Claim} {event : Event} {done failed : Phase}
    (howner : owner event = none ∨ owner event = some i)
    (hwritten : event.written = some (t.storageKey, value))
    (hevent : claimOn σ.log t.storageKey = expected → event.Legal σ.log)
    (hdone : PhaseInv (event :: σ.log) i t.storageKey done)
    (hfailed : PhaseInv σ.log i t.storageKey failed) :
    StepSpec σ i t (swap σ t expected value event done failed).1
      (swap σ t expected value event done failed).2 := by
  simp only [swap]
  split
  · rename_i store hcas
    obtain ⟨hexpected, hset⟩ := compareAndSet_some hcas
    rw [hstore] at hexpected
    refine ⟨.inr ⟨event, rfl, howner⟩, ⟨hevent hexpected, hlegal⟩, fun key => ?_, rfl, hdone⟩
    rw [hset, get_set]
    simp only [claimOn, hwritten]
    by_cases hkey : key = t.storageKey
    · subst hkey
      rw [if_pos rfl, if_pos rfl]
    · rw [if_neg hkey, if_neg (fun h => hkey h.symm)]
      exact hstore key
  · exact stay_spec hlegal hstore hfailed

theorem readClaim_spec (c : Choice) (hphase : PhaseInv σ.log i t.storageKey .reading) :
    StepSpec σ i t (readClaim σ i t c).1 (readClaim σ i t c).2 := by
  simp only [readClaim]
  split
  · exact stay_spec hlegal hstore trivial
  rename_i storageKey hkey
  have hsame : storageKey = t.storageKey := key_ok hkey
  subst hsame
  -- the mark belongs to no run and writes nothing
  have hseen : ∀ phase, PhaseInv σ.log i t.storageKey phase →
      StepSpec σ i t
        { σ with log := lapses t.storageKey c.now (σ.store.get t.storageKey) ++ σ.log }
        (t.to phase) := by
    intro phase hinv
    cases hprevious : σ.store.get t.storageKey with
    | none => exact stay_spec hlegal hstore hinv
    | some claim =>
      by_cases hlapsed : claim.state = .running ∧ claim.expiresAt ≤ c.now
      · have hlapses : lapses t.storageKey c.now (some claim) =
            [.lapsed t.storageKey claim c.now] := if_pos hlapsed
        rw [hlapses]
        have hheld := (hstore _).symm.trans hprevious
        exact ⟨.inr ⟨_, rfl, .inl rfl⟩, ⟨⟨hheld, hlapsed⟩, hlegal⟩, hstore, rfl,
          phaseInv_cons hinv nofun⟩
      · have hlapses : lapses t.storageKey c.now (some claim) = [] := if_neg hlapsed
        rw [hlapses]
        exact stay_spec hlegal hstore hinv
  split
  · exact hseen _ trivial
  · rename_i owned howned
    obtain ⟨htoken, hrunning, hidle⟩ := admission_ok howned
    exact hseen _ ⟨hphase, htoken, hrunning, hidle⟩

theorem next_spec {c : Choice} {r : Shared × Task} (hphase : PhaseInv σ.log i t.storageKey t.phase)
    (h : next σ i t c = some r) : StepSpec σ i t r.1 r.2 := by
  simp only [next] at h
  split at h
  case h_1 hreading =>
    cases h
    rw [hreading] at hphase
    exact readClaim_spec hlegal hstore c hphase
  case h_2 previous owned hacquiring =>
    cases h
    rw [hacquiring] at hphase
    obtain ⟨hfresh, htoken, hrunning, hidle⟩ := hphase
    apply swap_spec hlegal hstore
    · exact .inr (congrArg some htoken)
    · rfl
    · intro hheld
      refine ⟨fun held heq => hidle held (hheld.symm.trans heq), hrunning, fun k d hmem => ?_⟩
      rw [htoken]
      exact hfresh k d hmem
    · exact owns_of_started hlegal hfresh htoken
    · trivial
  case h_3 owned hworking =>
    cases h
    rw [hworking] at hphase
    apply stay_spec hlegal hstore
    cases c.succeeded
    · exact hphase
    · exact hphase
  case h_4 owned hreleasing =>
    cases h
    rw [hreleasing] at hphase
    have hrunning := started_running hlegal hphase.started
    apply swap_spec hlegal hstore
    · exact .inr (congrArg some hphase.token)
    · rfl
    · exact fun hheld => ⟨hheld, hrunning⟩
    · exact List.mem_cons_self
    · exact hphase
  case h_5 owned known error htransitioning =>
    cases h
    rw [htransitioning] at hphase
    have hrunning := started_running hlegal hphase.started
    cases known with
    | true | false =>
      apply swap_spec hlegal hstore
      · exact .inr (congrArg some hphase.token)
      · rfl
      · exact fun hheld => ⟨hheld, hrunning⟩
      · trivial
      · trivial
  case h_6 expectedToken hchecking =>
    split at h
    · cases h
      exact stay_spec hlegal hstore trivial
    split at h
    · cases h
      exact stay_spec hlegal hstore trivial
    · rename_i value hvalue
      cases h
      exact stay_spec hlegal hstore (checkReconcilable_ok hvalue)
  case h_7 value now hswapping =>
    cases h
    rw [hswapping] at hphase
    apply swap_spec hlegal hstore
    · exact .inl rfl
    · rfl
    · exact fun hheld => ⟨hheld, hphase⟩
    · trivial
    · trivial
  case h_8 => cases h
  case h_9 => cases h
  case h_10 => cases h

end Step

/-! ## Every run -/

theorem inv_start : Inv start :=
  ⟨trivial, fun _ => rfl, fun _ _ h => (List.not_mem_nil h).elim, each_nil _ _⟩

variable {s : Workers}

theorem inv_spawn (h : Inv s) (call : Call) :
    Inv ⟨s.shared, s.procs ++ [call.task]⟩ := { h with
  tokens k c hmem := by
    have hlt := h.tokens k c hmem
    rw [List.length_append]
    omega
  phases := by
    apply each_spawn h.phases
    cases call with
    | run coordinator key =>
      intro k c hmem htoken
      have hlt := h.tokens k c hmem
      omega
    | reconcile coordinator key expectedToken => trivial }

theorem inv_move {t : Task} {σ' : Shared} {t' : Task} (h : Inv s) (ht : s.procs[i]? = some t)
    (hspec : StepSpec s.shared i t σ' t') :
    Inv ⟨σ', s.procs.set i t'⟩ := { hspec with
  tokens k c hmem := by
    rw [List.length_set]
    have hi : i < s.procs.length := (List.getElem?_eq_some_iff.mp ht).1
    rcases hspec.events with hsame | ⟨e, hlog, howner⟩
    · rw [hsame] at hmem
      exact h.tokens k c hmem
    rw [hlog] at hmem
    rcases List.mem_cons.mp hmem with hnew | hold
    · subst hnew
      rcases howner with hnone | hown
      · cases hnone
      · have htoken : c.token = i := Option.some.inj hown
        omega
    · exact h.tokens k c hold
  phases := by
    apply each_move
    · exact hspec.phase
    intro j u hne hu
    have hold := h.phases j u hu
    rcases hspec.events with hsame | ⟨e, hlog, howner⟩
    · show PhaseInv σ'.log j u.storageKey u.phase
      rwa [hsame]
    rw [hlog]
    apply phaseInv_cons hold
    intro hj
    rcases howner with hnone | hown
    · rw [hnone] at hj
      cases hj
    · exact hne (Option.some.inj (hj.symm.trans hown)) }

theorem inv_step (s : Workers) (a : Act Call Choice) (s' : Workers) (h : Inv s)
    (hstep : act Call.task next s a = some s') : Inv s' := by
  rcases act_cases hstep with ⟨call, -, hs'⟩ | ⟨i, c, t, σ', t', -, ht, hnext, hs'⟩
  · subst hs'
    exact inv_spawn h call
  · subst hs'
    exact inv_move h ht (next_spec h.legal h.store (h.phases i t ht) hnext)

theorem inv_of_interleave {acts : List (Act Call Choice)} (hrun : interleave acts = some s) :
    Inv s :=
  run_invariant (act Call.task next) inv_step inv_start hrun

/-! ## Exclusion -/

/-- The claim that a worker executes under, or has still to end. -/
def Phase.claim : Phase → Option Claim
  | .working owned => some owned
  | .releasing owned => some owned
  | .transitioning owned _ _ => some owned
  | _ => none

theorem owns_of_claim (h : PhaseInv log i key phase) (hclaim : Phase.claim phase = some owned) :
    Owns log i key owned := by
  cases phase with
  | working c | releasing c | transitioning c known error => cases hclaim; exact h
  | reading | acquiring previous c | returned c => cases hclaim
  | checking expectedToken | swapping value now | reconciled | rejected error => cases hclaim

/-- Some reconciliation that named the token has succeeded. -/
def Reconciled (log : List Event) (token : Nat) : Prop :=
  ∃ e ∈ log, Event.reconciles token e = true

/-- The second claim was taken after a reconciliation had found the first one running past its
lease. -/
def Superseded (log : List Event) (key : String) (first second : Claim) : Prop :=
  ∃ later earlier now, log = later ++ .started key second :: earlier ∧
    Event.started key first ∈ earlier ∧ Event.reconciled key first now ∈ earlier ∧
    first.expiresAt ≤ now

theorem superseded_of_order {later earlier : List Event} {first second : Claim}
    (hlegal : LegalLog log) (hlog : log = later ++ .started key second :: earlier)
    (hstarted : Event.started key first ∈ earlier) (hreleased : Event.released key first ∉ log)
    (hdoubted : Event.doubted key first ∉ log) : Superseded log key first second := by
  subst hlog
  have hkeep : ∀ e ∈ earlier, e ∈ later ++ .started key second :: earlier :=
    fun e he => List.mem_append_right _ (List.mem_cons_of_mem _ he)
  rcases fate_of_restart hlegal hstarted with h | ⟨h, -⟩ | ⟨now, hreconciled, hlease⟩
  · exact absurd (hkeep _ h) hreleased
  · exact absurd (hkeep _ h) hdoubted
  · exact ⟨later, earlier, now, rfl, hstarted, hreconciled, hlease⟩

/-- Work for a key never starts again while an earlier claim of it is neither released by its
own run nor reconciled. -/
def RestartsAfterRelease (log : List Event) : Prop :=
  ∀ later earlier key c d, log = later ++ .started key d :: earlier →
    Event.started key c ∈ earlier →
    Event.released key c ∈ earlier ∨ Reconciled earlier c.token

/-- Work for a key never starts again after a lease of it was found expired, or its work was put
in doubt, until that claim is reconciled. -/
def RestartsAfterReconcile (log : List Event) : Prop :=
  ∀ later earlier key c d, log = later ++ .started key d :: earlier →
    ((∃ now, Event.lapsed key c now ∈ earlier) ∨ Event.doubted key c ∈ earlier) →
    Reconciled earlier c.token

structure Exclusive (s : Workers) : Prop where
  /-- What the log says is in the store. -/
  recorded : ∀ key, s.shared.store.get key = claimOn s.shared.log key
  overlap : ∀ (i j : Nat) (t u : Task) (c d : Claim), i ≠ j → s.procs[i]? = some t → s.procs[j]? = some u →
    t.phase = .working c → u.phase = .working d → t.storageKey = u.storageKey →
    Superseded s.shared.log t.storageKey c d ∨ Superseded s.shared.log t.storageKey d c
  restart : RestartsAfterRelease s.shared.log
  /-- A run that has started its work and not ended its claim has not released it, wherever it
  crashes. -/
  unfinished : ∀ (i : Nat) (t : Task) (c : Claim), s.procs[i]? = some t → Phase.claim t.phase = some c →
    Event.started t.storageKey c ∈ s.shared.log ∧ Event.released t.storageKey c ∉ s.shared.log
  doubted : ∀ key c, Event.doubted key c ∈ s.shared.log → Event.released key c ∉ s.shared.log
  returned : ∀ (i : Nat) (t : Task) (c : Claim), s.procs[i]? = some t → t.phase = .returned c → ∃ later earlier,
    s.shared.log = later ++ .released t.storageKey c :: earlier ∧
    claimOn earlier t.storageKey = some c ∧ c.state = .running ∧ ¬Reconciled earlier c.token
  once : ∀ token, (s.shared.log.filter (Event.reconciles token)).length ≤ 1

theorem restartsAfterRelease (h : LegalLog log) : RestartsAfterRelease log := by
  intro later earlier key c d hlog hstarted
  subst hlog
  rcases fate_of_restart h hstarted with hreleased | ⟨-, now, hmem⟩ | ⟨now, hmem, -⟩
  · exact .inl hreleased
  · exact .inr ⟨_, hmem, decide_eq_true rfl⟩
  · exact .inr ⟨_, hmem, decide_eq_true rfl⟩

theorem overlap_superseded (h : Inv s) {j : Nat} {t u : Task} {c d : Claim} (hne : i ≠ j)
    (ht : s.procs[i]? = some t) (hu : s.procs[j]? = some u) (hc : t.phase = .working c)
    (hd : u.phase = .working d) (hkey : t.storageKey = u.storageKey) :
    Superseded s.shared.log t.storageKey c d ∨ Superseded s.shared.log t.storageKey d c := by
  have hown : PhaseInv _ i t.storageKey t.phase := h.phases i t ht
  have hother : PhaseInv _ j u.storageKey u.phase := h.phases j u hu
  rw [hc] at hown
  rw [hd, ← hkey] at hother
  have hdistinct : Event.started t.storageKey c ≠ Event.started t.storageKey d := by
    intro heq
    cases heq
    exact hne (hown.token.symm.trans hother.token)
  rcases ordered_events hown.started hother.started hdistinct with
    ⟨later, earlier, hlog, hmem⟩ | ⟨later, earlier, hlog, hmem⟩
  · exact .inl (superseded_of_order h.legal hlog hmem hown.unreleased hown.undoubted)
  · exact .inr (superseded_of_order h.legal hlog hmem hother.unreleased hother.undoubted)

theorem returned_owned (h : Inv s) {t : Task} {c : Claim} (ht : s.procs[i]? = some t)
    (hc : t.phase = .returned c) : ∃ later earlier,
      s.shared.log = later ++ .released t.storageKey c :: earlier ∧
      claimOn earlier t.storageKey = some c ∧ c.state = .running ∧
      ¬Reconciled earlier c.token := by
  have hphase : PhaseInv _ i t.storageKey t.phase := h.phases i t ht
  rw [hc] at hphase
  obtain ⟨later, earlier, hlog⟩ := List.append_of_mem hphase
  have hlegal := h.legal
  rw [hlog] at hlegal
  obtain ⟨⟨hheld, hrunning⟩, hrest⟩ := legal_split hlegal
  refine ⟨later, earlier, hlog, hheld, hrunning, ?_⟩
  rintro ⟨e, he, hreconciles⟩
  have hnone := not_reconciled hrest hheld (by rw [hrunning]; decide) e he
  rw [hnone] at hreconciles
  cases hreconciles

/-- In every interleaving of runs and reconciliations: work for a key overlaps only past a lease
that was reconciled, starts again only after a release or a reconciliation, returns only while
its claim was its own, and no claim is reconciled twice. -/
theorem execution_exclusive (acts : List (Act Call Choice)) (s : Workers)
    (hrun : interleave acts = some s) : Exclusive s := by
  have h := inv_of_interleave hrun
  constructor
  · exact h.store
  · intro i j t u c d hne ht hu hc hd hkey
    exact overlap_superseded h hne ht hu hc hd hkey
  · exact restartsAfterRelease h.legal
  · intro i t c ht hclaim
    have howns := owns_of_claim (h.phases i t ht) hclaim
    exact ⟨howns.started, howns.unreleased⟩
  · intro key c hmem
    exact not_released_of_doubted h.legal hmem
  · intro i t c ht hc
    exact returned_owned h ht hc
  · exact reconciled_once h.legal

/-! ## Two runs -/

def coordinator : Coordinator := ⟨"plugfn:execution:", 10, by decide +kernel⟩

def clock (now : Rat) : Choice := ⟨now, now, true, false⟩

/-- The work of the first run outlasts its lease; it is reconciled, a second run starts, and both
work at once. -/
def overlapping : List (Act Call Choice) :=
  [.spawn (.run coordinator "event"), .move 0 (clock 0), .move 0 (clock 0),
    .spawn (.reconcile coordinator "event" 0), .move 1 (clock 20), .move 1 (clock 20),
    .spawn (.run coordinator "event"), .move 2 (clock 21), .move 2 (clock 21)]

theorem overlapping_ends : (interleave overlapping).any (fun s => s.procs.map (·.phase) =
    [.working ⟨.running, 0, 10⟩, .reconciled, .working ⟨.running, 2, 31⟩]) = true := by
  decide +kernel

theorem execution_exclusive_overlapping : ∃ s, interleave overlapping = some s ∧
    s.procs.map (·.phase) =
      [.working ⟨.running, 0, 10⟩, .reconciled, .working ⟨.running, 2, 31⟩] ∧ Exclusive s := by
  obtain ⟨s, hrun, hphases⟩ := (Option.any_eq_true _ _).mp overlapping_ends
  exact ⟨s, hrun, of_decide_eq_true hphases, execution_exclusive overlapping s hrun⟩

/-- A second call finds the lease of the first expired; the first then finishes and releases its
claim itself, and a third call works without any reconciliation. -/
def releasedLate : List (Act Call Choice) :=
  [.spawn (.run coordinator "event"), .move 0 (clock 0), .move 0 (clock 0),
    .spawn (.run coordinator "event"), .move 1 (clock 20), .move 0 (clock 21), .move 0 (clock 21),
    .spawn (.run coordinator "event"), .move 2 (clock 22), .move 2 (clock 22)]

theorem releasedLate_log : (interleave releasedLate).map (·.shared.log) =
    some [.started "plugfn:execution:event" ⟨.running, 2, 32⟩,
      .released "plugfn:execution:event" ⟨.running, 0, 10⟩,
      .lapsed "plugfn:execution:event" ⟨.running, 0, 10⟩ 20,
      .started "plugfn:execution:event" ⟨.running, 0, 10⟩] := by decide +kernel

theorem not_restartsAfterReconcile :
    ¬∀ acts s, interleave acts = some s → RestartsAfterReconcile s.shared.log := by
  intro hall
  obtain ⟨s, hrun, hlog⟩ := Option.map_eq_some_iff.mp releasedLate_log
  have hrestart := hall releasedLate s hrun
  rw [hlog] at hrestart
  obtain ⟨e, he, hreconciles⟩ := hrestart [] _ "plugfn:execution:event" ⟨.running, 0, 10⟩ _ rfl
    (.inl ⟨20, by simp⟩)
  have hnone : ∀ a ∈ [Event.released "plugfn:execution:event" ⟨.running, 0, 10⟩,
      .lapsed "plugfn:execution:event" ⟨.running, 0, 10⟩ 20,
      .started "plugfn:execution:event" ⟨.running, 0, 10⟩], a.reconciles 0 = false := by decide
  rw [hnone e he] at hreconciles
  cases hreconciles

end SuperFunctions.Plugfn.ExecutionExclusion
