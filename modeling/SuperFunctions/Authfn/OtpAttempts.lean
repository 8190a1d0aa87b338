import SuperFunctions.Authfn.OtpConsumption

/-!
# Counted attempts

The attempts of a challenge are counted when its calls do not overlap and none of them fails between
the comparison and the write that follows it. Two calls that read the challenge together compare
twice and count once.
-/
namespace SuperFunctions.Authfn.OtpAttempts

open Lib.Processes Lib.Transition OtpChallenges OtpConsumption List Option

variable {H : Type}

/-- The challenge that a call has read and not finished with. -/
def heldBy : Phase H → Option (AuthFnOtpChallengeRecord H)
  | .read challenge => challenge
  | .counting challenge _ | .matched challenge _ _ | .consuming challenge _ _ => some challenge
  | _ => none

section Guard

variable (config : Config H)

/-- The challenge is read while no call is under way with it; after a comparison the write is not
lost, the answers let the right code go on, and it is consumed before it expires. -/
def Orderly (s : Service H) : Act Request Choice → Bool
  | .spawn _ => true
  | .move i c =>
    match s.procs[i]? with
    | none => true
    | some call =>
      match call.phase with
      | .entered => call.request.code.isNone || (findLatestChallenge s.shared.rows).all fun latest =>
        s.procs.all fun other => (heldBy other.phase).all fun challenge =>
          challenge.id ≠ latest.id
      | .counting _ _ => !c.fails
      | .matched _ _ _ => (proceeds config c.answers).isOk
      | .consuming challenge _ _ => !c.fails && c.at_ < challenge.expiresAt
      | _ => true

end Guard

def attempts (store : Store H) (id : String) : Nat := store.compared.count id

/-- What the count of a call's challenge is, by the phase of the call. -/
def PhaseCounted (store : Store H) : Phase H → Prop
  | .read (some challenge) => challenge ∈ store.rows ∧
    (challenge.consumedAt = none → attempts store challenge.id ≤ challenge.attemptCount)
  | .counting challenge attemptCount | .matched challenge attemptCount _
  | .consuming challenge attemptCount _ => challenge ∈ store.rows ∧ challenge.consumedAt = none ∧
    attempts store challenge.id ≤ attemptCount
  | _ => True

def CallCounted (store : Store H) (_ : Nat) (call : Call H) : Prop :=
  PhaseCounted store call.phase

/-- Two calls do not hold the same challenge. -/
def Apart (i : Nat) (p : Call H) (j : Nat) (q : Call H) : Prop :=
  i ≠ j → ∀ a b, heldBy p.phase = some a → heldBy q.phase = some b → a.id ≠ b.id

structure Counted (config : Config H) (s : Service H) : Prop where
  alone : Pairs Apart s
  calls : Each CallCounted s
  idle : ∀ row ∈ s.shared.rows,
    (∀ (j : Nat) (call : Call H) challenge, s.procs[j]? = some call → heldBy call.phase = some challenge →
      challenge.id ≠ row.id) →
    row.consumedAt = none → attempts s.shared row.id ≤ row.attemptCount
  bound : ∀ id, attempts s.shared id ≤ config.maxAttempts
  known : ∀ id ∈ s.shared.compared, ∃ row ∈ s.shared.rows, row.id = id

/-- Only the row and the count of one challenge are touched. -/
structure Touches (id : String) (store store' : Store H) : Prop where
  rows : ∀ row, row.id ≠ id → (row ∈ store'.rows ↔ row ∈ store.rows)
  attempts : ∀ other, other ≠ id → attempts store' other = attempts store other

variable {call' call : Call H} {phase : Phase H}

section Touched

variable {config : Config H} {store store' : Store H}

theorem phaseCounted_touched {id : String} (htouch : Touches id store store')
    (hother : ∀ challenge, heldBy phase = some challenge → challenge.id ≠ id)
    (h : PhaseCounted store phase) : PhaseCounted store' phase := by
  cases phase with
  | read challenge =>
    cases challenge with
    | none => trivial
    | some challenge =>
      have hne := hother challenge rfl
      refine ⟨(htouch.rows challenge hne).mpr h.1, fun hnone => ?_⟩
      rw [htouch.attempts _ hne]
      exact h.2 hnone
  | counting challenge attemptCount | matched challenge attemptCount now
  | consuming challenge attemptCount now =>
    have hne := hother challenge rfl
    exact ⟨(htouch.rows challenge hne).mpr h.1, h.2.1, htouch.attempts _ hne ▸ h.2.2⟩
  | _ => trivial

variable {i : Nat}

theorem free_of_moved {procs : List (Call H)} {id : String} (hcall : procs[i]? = some call)
    (hbefore : ∀ b, heldBy call.phase = some b → b.id ≠ id)
    (hfree : ∀ (j : Nat) (other : Call H) b, (procs.set i call')[j]? = some other →
      heldBy other.phase = some b → b.id ≠ id) :
    ∀ (j : Nat) (other : Call H) b, procs[j]? = some other → heldBy other.phase = some b →
      b.id ≠ id := by
  intro j other b hother hb
  by_cases hij : j = i
  · subst hij
    cases hcall.symm.trans hother
    exact hbefore b hb
  · refine hfree j other b ?_ hb
    rwa [getElem?_set_ne (fun heq => hij heq.symm)]

variable {s : Service H} {challenge : AuthFnOtpChallengeRecord H}

theorem counted_touched (h : Counted config s) (hcall : s.procs[i]? = some call)
    (hheld : heldBy call.phase = some challenge) (htouch : Touches challenge.id s.shared store')
    (hafter : heldBy call'.phase = some challenge ∨ heldBy call'.phase = none ∧
      ∀ row ∈ store'.rows, row.id = challenge.id → row.consumedAt = none →
        attempts store' row.id ≤ row.attemptCount) (hown : PhaseCounted store' call'.phase)
    (hbound : attempts store' challenge.id ≤ config.maxAttempts)
    (hknown : ∀ id ∈ store'.compared, ∃ row ∈ store'.rows, row.id = id) :
    Counted config ⟨store', s.procs.set i call'⟩ := by
  have hapart : ∀ j other b, j ≠ i → s.procs[j]? = some other → heldBy other.phase = some b →
      b.id ≠ challenge.id := by
    intro j other b hne hother hb
    exact h.alone j i other call hother hcall hne b challenge hb hheld
  have hsame : ∀ b, heldBy call'.phase = some b → b = challenge := by
    intro b hb
    rcases hafter with hkept | ⟨hnone, -⟩
    · exact Option.some.inj (hb.symm.trans hkept)
    · cases hb.symm.trans hnone
  constructor
  · apply pairs_move h.alone
    · intro hne
      exact (hne rfl).elim
    · intro j other hne hother _ a b ha hb
      rw [hsame a ha]
      exact (hapart j other b hne hother hb).symm
    · intro j other hne hother _ a b ha hb
      rw [hsame b hb]
      exact hapart j other a hne hother ha
  · apply each_move
    · exact hown
    · intro j other hne hother
      exact phaseCounted_touched htouch (fun b hb => hapart j other b hne hother hb)
        (h.calls j other hother)
  · intro row hrow hfree hnone
    by_cases hid : row.id = challenge.id
    · rcases hafter with hkept | ⟨-, hreleased⟩
      · have hlt := (List.getElem?_eq_some_iff.mp hcall).1
        exact (hfree i call' challenge (getElem?_set_self hlt) hkept hid.symm).elim
      · exact hreleased row hrow hid hnone
    · show attempts store' row.id ≤ row.attemptCount
      rw [htouch.attempts _ hid]
      apply h.idle row ((htouch.rows row hid).mp hrow) _ hnone
      apply free_of_moved hcall _ hfree
      intro b hb
      cases hheld.symm.trans hb
      exact fun heq => hid heq.symm
  · intro id
    by_cases hid : id = challenge.id
    · subst hid
      exact hbound
    · show attempts store' id ≤ config.maxAttempts
      rw [htouch.attempts id hid]
      exact h.bound id
  · exact hknown

theorem counted_quiet (h : Counted config s) (hcall : s.procs[i]? = some call)
    (hbefore : heldBy call.phase = none) (hafter : heldBy call'.phase = none)
    (hown : PhaseCounted s.shared call'.phase) :
    Counted config ⟨s.shared, s.procs.set i call'⟩ := { h with
  alone := by
    apply pairs_move h.alone
    · intro hne
      exact (hne rfl).elim
    · intro j other _ _ _ a b ha _
      cases ha.symm.trans hafter
    · intro j other _ _ _ a b _ hb
      cases hb.symm.trans hafter
  calls := by
    apply each_move
    · exact hown
    · intro j other _ hother
      exact h.calls j other hother
  idle row hrow hfree hnone := by
    apply h.idle row hrow _ hnone
    apply free_of_moved hcall _ hfree
    intro b hb
    cases hb.symm.trans hbefore }

theorem counted_read (h : Counted config s) (hcall : s.procs[i]? = some call)
    (hbefore : heldBy call.phase = none) (hafter : call'.phase = .read (some challenge))
    (hmem : challenge ∈ s.shared.rows)
    (hfree : ∀ other ∈ s.procs, ∀ b, heldBy other.phase = some b → b.id ≠ challenge.id) :
    Counted config ⟨s.shared, s.procs.set i call'⟩ := { h with
  alone := by
    have hheld : heldBy call'.phase = some challenge := by rw [hafter]; rfl
    apply pairs_move h.alone
    · intro hne
      exact (hne rfl).elim
    · intro j other _ hother _ a b ha hb
      cases ha.symm.trans hheld
      exact (hfree other (mem_of_getElem? hother) b hb).symm
    · intro j other _ hother _ a b ha hb
      cases hb.symm.trans hheld
      exact hfree other (mem_of_getElem? hother) a ha
  calls := by
    apply each_move
    · show PhaseCounted s.shared call'.phase
      rw [hafter]
      refine ⟨hmem, fun hnone => h.idle challenge hmem ?_ hnone⟩
      intro j other b hother hb
      exact hfree other (mem_of_getElem? hother) b hb
    · intro j other _ hother
      exact h.calls j other hother
  idle row hrow hfree' hnone := by
    apply h.idle row hrow _ hnone
    apply free_of_moved hcall _ hfree'
    intro b hb
    cases hb.symm.trans hbefore }

end Touched

section Steps

variable [DecidableEq H] {config : Config H}

omit [DecidableEq H] in
theorem touches_refl (id : String) (store : Store H) : Touches id store store :=
  ⟨fun _ _ => Iff.rfl, fun _ _ => rfl⟩

omit [DecidableEq H] in
theorem touches_compared (store : Store H) (id : String) :
    Touches id store { store with compared := id :: store.compared } where
  rows _ _ := Iff.rfl
  attempts other hne := by
    exact count_cons_of_ne fun heq => hne heq.symm

omit [DecidableEq H] in
theorem touches_update (store : Store H) (id : String) {change} (hkeeps : Keeps (H := H) change) :
    Touches id store (store.update id change) where
  rows row hne := by
    constructor
    · intro hrow
      obtain ⟨old, hold, heq⟩ := mem_map.mp hrow
      by_cases hid : old.id = id
      · rw [if_pos hid] at heq
        have hsame := (hkeeps.same old).id
        rw [heq] at hsame
        exact (hne (hsame.trans hid)).elim
      · rw [if_neg hid] at heq
        exact heq ▸ hold
    · intro hrow
      refine mem_map.mpr ⟨row, hrow, ?_⟩
      rw [if_neg hne]
  attempts _ _ := rfl

omit [DecidableEq H] in
theorem known_grows {store store' : Store H} (hgrows : Grows store store')
    (h : ∀ id ∈ store.compared, ∃ row ∈ store.rows, row.id = id) :
    ∀ id ∈ store.compared, ∃ row ∈ store'.rows, row.id = id := by
  intro id hid
  obtain ⟨row, hrow, hsame⟩ := h id hid
  obtain ⟨row', hrow', hkept, -⟩ := hgrows row hrow
  exact ⟨row', hrow', hkept.id.trans hsame⟩

variable {s : Service H} {i : Nat} {request : Request} {store' : Store H} {phase' : Phase H}
  {c : Choice} {code : String}

theorem check_counted {challenge : Option (AuthFnOtpChallengeRecord H)} (code : String) (now : Int)
    (h : Counted config s) (htables : TablesOk config s.shared)
    (hcall : s.procs[i]? = some ⟨request, .read challenge⟩) :
    Counted config ⟨(check config s.shared challenge code now).1,
      s.procs.set i ⟨request, (check config s.shared challenge code now).2⟩⟩ := by
  cases challenge with
  | none => exact counted_quiet h hcall rfl rfl trivial
  | some challenge =>
    obtain ⟨hmem, hcount⟩ : challenge ∈ s.shared.rows ∧ (challenge.consumedAt = none →
      attempts s.shared challenge.id ≤ challenge.attemptCount) := h.calls i _ hcall
    have hrelease : ∀ row ∈ s.shared.rows, row.id = challenge.id → row.consumedAt = none →
        attempts s.shared row.id ≤ row.attemptCount := by
      intro row hrow hid hnone
      cases row_unique htables hrow hmem hid
      exact hcount hnone
    have hrefused : ∀ error, Counted config ⟨s.shared, s.procs.set i ⟨request, .threw error⟩⟩ :=
      fun error => counted_touched h hcall rfl (touches_refl _ _) (.inr ⟨rfl, hrelease⟩) trivial
        (h.bound _) h.known
    unfold check
    dsimp only
    split
    · exact hrefused _
    rename_i hlive
    have hnone : challenge.consumedAt = none := by simpa using hlive
    have hle := hcount hnone
    split
    · exact hrefused _
    split
    · exact counted_touched h hcall rfl (touches_refl _ _) (.inl rfl)
        ⟨hmem, hnone, Nat.le_succ_of_le hle⟩ (h.bound _) h.known
    rename_i hmax
    have hmark : attempts { s.shared with
        compared := challenge.id :: s.shared.compared } challenge.id =
        attempts s.shared challenge.id + 1 := count_cons_self
    have hcompared : ∀ phase', heldBy phase' = some challenge →
        PhaseCounted { s.shared with
          compared := challenge.id :: s.shared.compared } phase' →
        Counted config ⟨{ s.shared with
          compared := challenge.id :: s.shared.compared },
          s.procs.set i ⟨request, phase'⟩⟩ := by
      intro phase' hheld hown
      apply counted_touched h hcall rfl (touches_compared _ _) (.inl hheld) hown
      · rw [hmark]
        omega
      · intro id hid
        rcases mem_cons.mp hid with rfl | hold
        · exact ⟨challenge, hmem, rfl⟩
        · exact h.known id hold
    have hnext : challenge ∈ s.shared.rows ∧ challenge.consumedAt = none ∧
        attempts { s.shared with
          compared := challenge.id :: s.shared.compared } challenge.id ≤
        challenge.attemptCount + 1 := ⟨hmem, hnone, by omega⟩
    split
    · exact hcompared _ rfl hnext
    · exact hcompared _ rfl hnext

theorem verify_counted (h : Counted config s) (htables : TablesOk config s.shared)
    (hcall : s.procs[i]? = some ⟨request, phase⟩) (hcode : request.code = some code)
    (horderly : Orderly config s (.move i c) = true)
    (hstep : verifyOtpChallenge config s.shared code phase c = some (store', phase')) :
    Counted config ⟨store', s.procs.set i ⟨request, phase'⟩⟩ := by
  simp only [Orderly, hcall] at horderly
  cases phase with
  | entered =>
    obtain ⟨rfl, rfl⟩ := Prod.mk.inj (Option.some.inj hstep)
    split
    · exact counted_quiet h hcall rfl rfl trivial
    cases hlatest : findLatestChallenge s.shared.rows with
    | none => exact counted_quiet h hcall rfl rfl trivial
    | some latest =>
      apply counted_read h hcall rfl rfl (findLatestChallenge_mem hlatest)
      intro other hother b hb
      simp only [hcode, Option.isNone_some, Bool.false_or, hlatest, Option.all_some,
        List.all_eq_true] at horderly
      have hall := horderly other hother
      rw [hb] at hall
      simpa using hall
  | read challenge =>
    have hcheck := check_counted code c.at_ h htables hcall
    obtain ⟨rfl, rfl⟩ := Prod.mk.inj (Option.some.inj hstep)
    exact hcheck
  | counting challenge attemptCount =>
    obtain ⟨hmem, hnone, hcount⟩ : challenge ∈ s.shared.rows ∧ challenge.consumedAt = none ∧
      attempts s.shared challenge.id ≤ attemptCount := h.calls i _ hcall
    have hworks : c.fails = false := by simpa using horderly
    simp only [verifyOtpChallenge, hworks, Bool.false_eq_true, if_false] at hstep
    cases hstep
    have hkeeps := keeps_attemptCount (H := H) attemptCount
    have hknown := known_grows (grows_update challenge.id hkeeps) h.known
    refine counted_touched h hcall rfl (touches_update _ _ hkeeps) (.inr ⟨rfl, ?_⟩) trivial
      (h.bound _) hknown
    intro row hrow hid _
    obtain ⟨old, hold, rfl⟩ := mem_map.mp hrow
    by_cases hsame : old.id = challenge.id
    · simp only [if_pos hsame]
      rwa [hsame]
    · rw [if_neg hsame] at hid
      exact (hsame hid).elim
  | matched challenge attemptCount now =>
    have hok : PhaseCounted s.shared (.matched challenge attemptCount now) := h.calls i _ hcall
    simp only [verifyOtpChallenge] at hstep
    split at hstep
    · rename_i herror
      rw [herror] at horderly
      cases horderly
    · cases hstep
      exact counted_touched h hcall rfl (touches_refl _ _) (.inl rfl) hok (h.bound _) h.known
  | consuming challenge attemptCount now =>
    obtain ⟨hmem, hnone, hcount⟩ : challenge ∈ s.shared.rows ∧ challenge.consumedAt = none ∧
      attempts s.shared challenge.id ≤ attemptCount := h.calls i _ hcall
    simp only [Bool.and_eq_true, Bool.not_eq_true', decide_eq_true_eq] at horderly
    simp only [verifyOtpChallenge, horderly.1, Bool.false_eq_true, if_false] at hstep
    split at hstep
    · rename_i hmissing
      unfold consumeOtpChallenge at hmissing
      split at hmissing
      · cases hmissing
      · rename_i hany
        refine (hany (any_eq_true.mpr ⟨challenge, hmem, ?_⟩)).elim
        simp [hnone]
    · rename_i store hconsume
      cases hstep
      obtain ⟨-, rfl⟩ := consumeOtpChallenge_cases hconsume
      have hkeeps := keeps_consumed (H := H) attemptCount now
      have htouch := touches_update s.shared challenge.id hkeeps
      have hknown := known_grows (grows_update challenge.id hkeeps) h.known
      refine counted_touched h hcall rfl ⟨htouch.rows, htouch.attempts⟩ (.inr ⟨rfl, ?_⟩) trivial
        (h.bound _) hknown
      intro row hrow hid hlive
      obtain ⟨old, hold, rfl⟩ := mem_map.mp hrow
      by_cases hsame : old.id = challenge.id
      · cases row_unique htables hold hmem hsame
        simp [hnone] at hlive
      · rw [if_neg hsame] at hid
        exact (hsame hid).elim
  | consumed =>
    obtain ⟨rfl, rfl⟩ := Prod.mk.inj (Option.some.inj hstep)
    split
    · exact counted_quiet h hcall rfl rfl trivial
    · exact counted_quiet h hcall rfl rfl trivial
  | hooking now => cases hstep
  | delivering => cases hstep
  | returned => cases hstep
  | threw error => cases hstep

omit [DecidableEq H] in
theorem counted_created {id sentCode : String} {row : AuthFnOtpChallengeRecord H}
    (h : Counted config s) (hcall : s.procs[i]? = some call) (hbefore : heldBy call.phase = none)
    (hfresh : ∀ other ∈ s.shared.rows, other.id ≠ id) (hid : row.id = id) :
    Counted config ⟨{ s.shared with
        rows := s.shared.rows ++ [row], sent := (id, sentCode) :: s.shared.sent },
      s.procs.set i { call with phase := .delivering }⟩ := by
  have hquiet : Counted config ⟨s.shared, s.procs.set i { call with phase := .delivering }⟩ :=
    counted_quiet h hcall hbefore rfl trivial
  refine ⟨hquiet.alone, ?_, ?_, hquiet.bound, ?_⟩
  · intro j other hother
    have hok := hquiet.calls j other hother
    unfold CallCounted at hok ⊢
    cases hphase : other.phase with
    | read challenge =>
      cases challenge with
      | none => trivial
      | some challenge =>
        rw [hphase] at hok
        exact ⟨mem_append_left _ hok.1, hok.2⟩
    | counting challenge attemptCount | matched challenge attemptCount now
    | consuming challenge attemptCount now =>
      rw [hphase] at hok
      exact ⟨mem_append_left _ hok.1, hok.2⟩
    | _ => trivial
  · intro other hother hfree hnone
    rcases mem_append.mp hother with hold | hnew
    · exact hquiet.idle other hold hfree hnone
    cases mem_singleton.mp hnew
    have hnever : row.id ∉ s.shared.compared := by
      intro hmem
      obtain ⟨old, hold, hsame⟩ := h.known row.id hmem
      exact hfresh old hold (hsame.trans hid)
    show List.count row.id s.shared.compared ≤ row.attemptCount
    rw [count_eq_zero_of_not_mem hnever]
    exact Nat.zero_le _
  · intro other hother
    obtain ⟨old, hold, hsame⟩ := h.known other hother
    exact ⟨old, mem_append_left _ hold, hsame⟩

omit [DecidableEq H] in
theorem send_counted (h : Counted config s) (hcall : s.procs[i]? = some ⟨request, phase⟩)
    (hstep : sendOtpChallenge config s.shared phase c = some (store', phase')) :
    Counted config ⟨store', s.procs.set i ⟨request, phase'⟩⟩ := by
  cases phase with
  | entered =>
    cases hstep
    exact counted_quiet h hcall rfl rfl trivial
  | hooking now =>
    simp only [sendOtpChallenge] at hstep
    split at hstep
    · cases hstep
      exact counted_quiet h hcall rfl rfl trivial
    split at hstep
    · cases hstep
      exact counted_quiet h hcall rfl rfl trivial
    split at hstep
    · cases hstep
      exact counted_quiet h hcall rfl rfl trivial
    rename_i hfresh
    cases hstep
    refine counted_created h hcall rfl ?_ rfl
    intro other hother hid
    exact hfresh (any_eq_true.mpr ⟨other, hother, by simpa using hid⟩)
  | delivering =>
    obtain ⟨rfl, rfl⟩ := Prod.mk.inj (some.inj hstep)
    split
    · exact counted_quiet h hcall rfl rfl trivial
    · exact counted_quiet h hcall rfl rfl trivial
  | read challenge => cases hstep
  | counting challenge attemptCount => cases hstep
  | matched challenge attemptCount now => cases hstep
  | consuming challenge attemptCount now => cases hstep
  | consumed => cases hstep
  | returned => cases hstep
  | threw error => cases hstep

variable {a : Act Request Choice} {s' : Service H}

theorem step_counted (hinv : Inv config s) (h : Counted config s)
    (horderly : Orderly config s a = true) (hstep : serviceStep config s a = some s') :
    Counted config s' := by
  rcases act_cases hstep with
    ⟨request, rfl, rfl⟩ | ⟨i, c, call, store', call', rfl, hcall, hnext, rfl⟩
  · refine ⟨?_, each_spawn h.calls trivial, ?_, h.bound, h.known⟩
    · apply pairs_spawn h.alone
      · intro hne
        exact (hne rfl).elim
      · intro j other _ _ a b ha _
        cases ha
      · intro j other _ _ a b _ hb
        cases hb
    · intro row hrow hfree hnone
      apply h.idle row hrow _ hnone
      intro j other b hother hb
      refine hfree j other b ?_ hb
      rwa [List.getElem?_append_left (List.getElem?_eq_some_iff.mp hother).1]
  · obtain ⟨⟨store, phase⟩, hadvance, hresult⟩ := Option.map_eq_some_iff.mp hnext
    obtain ⟨rfl, rfl⟩ := Prod.mk.inj hresult
    obtain ⟨request, before⟩ := call
    cases request with
    | sendOtpChallenge => exact send_counted h hcall hadvance
    | verifyOtpChallenge code => exact verify_counted h hinv.tables hcall rfl horderly hadvance
    | completeResetPassword code => exact verify_counted h hinv.tables hcall rfl horderly hadvance

/-- Every challenge was consumed before it expired. -/
def InTime (store : Store H) : Prop :=
  ∀ c ∈ store.consumptions, ∃ row ∈ store.rows, row.id = c.id ∧ c.at_ < row.expiresAt

omit [DecidableEq H] in
theorem inTime_grows {store store' : Store H} (hgrows : Grows store store')
    (hsame : store'.consumptions = store.consumptions) (h : InTime store) : InTime store' := by
  intro c hc
  rw [hsame] at hc
  obtain ⟨row, hrow, hid, htime⟩ := h c hc
  obtain ⟨row', hrow', hkept, -⟩ := hgrows row hrow
  exact ⟨row', hrow', hkept.id.trans hid, hkept.expiresAt ▸ htime⟩

omit [DecidableEq H] in
theorem send_consumptions {store store' : Store H}
    (h : sendOtpChallenge config store phase c = some (store', phase')) :
    store'.consumptions = store.consumptions := by
  cases phase with
  | hooking now =>
    simp only [sendOtpChallenge] at h
    split at h
    · cases h
      rfl
    split at h
    · cases h
      rfl
    split at h
    · cases h
      rfl
    · cases h
      rfl
  | entered =>
    cases h
    rfl
  | delivering =>
    obtain ⟨rfl, -⟩ := Prod.mk.inj (some.inj h)
    rfl
  | _ => cases h

theorem check_consumptions (store : Store H) (challenge : Option (AuthFnOtpChallengeRecord H))
    (now : Int) :
    (check config store challenge code now).1.consumptions = store.consumptions := by
  cases challenge with
  | none => rfl
  | some challenge =>
    unfold check
    dsimp only
    split
    · rfl
    split
    · rfl
    · split
      · rfl
      · split <;> rfl

theorem verify_consumptions {store store' : Store H}
    (h : verifyOtpChallenge config store code phase c = some (store', phase')) :
    store'.consumptions = store.consumptions ∨
      ∃ challenge attemptCount now, phase = .consuming challenge attemptCount now ∧
        store'.consumptions = ⟨challenge.id, code, now, c.at_⟩ :: store.consumptions := by
  cases phase with
  | entered | consumed =>
    obtain ⟨rfl, -⟩ := Prod.mk.inj (some.inj h)
    exact .inl rfl
  | read challenge =>
    obtain ⟨rfl, -⟩ := Prod.mk.inj (some.inj h)
    exact .inl (check_consumptions store challenge c.at_)
  | counting challenge attemptCount | matched challenge attemptCount now =>
    simp only [verifyOtpChallenge] at h
    split at h
    · cases h
      exact .inl rfl
    · cases h
      exact .inl rfl
  | consuming challenge attemptCount now =>
    simp only [verifyOtpChallenge] at h
    split at h
    · cases h
      exact .inl rfl
    split at h
    · cases h
      exact .inl rfl
    · rename_i hconsume
      cases h
      obtain ⟨-, rfl⟩ := consumeOtpChallenge_cases hconsume
      exact .inr ⟨challenge, attemptCount, now, rfl, rfl⟩
  | _ => cases h

theorem verify_inTime (hinv : Inv config s) (hcall : s.procs[i]? = some ⟨request, phase⟩)
    (hcode : request.code = some code) (horderly : Orderly config s (.move i c) = true)
    (hstep : verifyOtpChallenge config s.shared code phase c = some (store', phase'))
    (h : InTime s.shared) : InTime store' := by
  have hok : PhaseOk config s.shared code phase := hinv.calls i _ hcall code hcode
  have hsound := verify_sound hinv.tables hok hstep
  rcases verify_consumptions hstep with hsame | ⟨challenge, attemptCount, now, rfl, hadded⟩
  · exact inTime_grows hsound.grows hsame h
  simp only [Orderly, hcall, Bool.and_eq_true, decide_eq_true_eq] at horderly
  obtain ⟨row, hrow, hsame⟩ := held_grows hsound.grows hok.held
  intro consumption hmem
  rw [hadded] at hmem
  rcases mem_cons.mp hmem with rfl | hold
  · refine ⟨row, hrow, hsame.id, ?_⟩
    rw [hsame.expiresAt]
    exact horderly.2
  · obtain ⟨old, holdRow, hid, htime⟩ := h consumption hold
    obtain ⟨row', hrow', hkept, -⟩ := hsound.grows old holdRow
    exact ⟨row', hrow', hkept.id.trans hid, hkept.expiresAt ▸ htime⟩

theorem step_inTime (hinv : Inv config s) (h : InTime s.shared)
    (horderly : Orderly config s a = true) (hstep : serviceStep config s a = some s') :
    InTime s'.shared := by
  rcases act_cases hstep with
    ⟨request, rfl, rfl⟩ | ⟨i, c, call, store', call', rfl, hcall, hnext, rfl⟩
  · exact h
  obtain ⟨⟨store, phase⟩, hadvance, hresult⟩ := map_eq_some_iff.mp hnext
  obtain ⟨rfl, rfl⟩ := Prod.mk.inj hresult
  obtain ⟨request, before⟩ := call
  cases request with
  | sendOtpChallenge =>
    exact inTime_grows (send_sound hinv.tables hadvance).2 (send_consumptions hadvance) h
  | verifyOtpChallenge code => exact verify_inTime hinv hcall rfl horderly hadvance h
  | completeResetPassword code => exact verify_inTime hinv hcall rfl horderly hadvance h

/-- The invariant of an orderly run. -/
structure OrderlyInv (config : Config H) (s : Service H) : Prop where
  inv : Inv config s
  counted : Counted config s
  inTime : InTime s.shared

omit [DecidableEq H] in
theorem started_counted : Counted config (⟨.empty, []⟩ : Service H) where
  alone := pairs_nil _ _
  calls := each_nil _ _
  idle row hrow := by cases hrow
  bound _ := Nat.zero_le _
  known id hid := by cases hid

/-- Every run consumes a challenge once at most, by its own code and by a call checked before its
expiry. An orderly run also bounds the comparisons and consumes in time. -/
theorem challenges_resist {acts : List (Act Request Choice)}
    (hhash : Function.Injective config.hashSecret)
    (hrun : run (serviceStep config) ⟨.empty, []⟩ acts = some s) :
    ((s.shared.consumptions.map (·.id)).Nodup ∧ (s.shared.sent.map (·.1)).Nodup ∧
      ∀ c ∈ s.shared.consumptions, (c.id, c.code) ∈ s.shared.sent ∧
        ∃ row ∈ s.shared.rows, row.id = c.id ∧ row.consumedAt = some c.now ∧
          c.now < row.expiresAt) ∧
    (Guarded (serviceStep config) (fun s a => Orderly config s a = true) ⟨.empty, []⟩ acts →
      (∀ id, attempts s.shared id ≤ config.maxAttempts) ∧ InTime s.shared) := by
  have hinv := run_inv hrun
  refine ⟨⟨hinv.tables.once, ?_, ?_⟩, ?_⟩
  · rw [hinv.tables.sentIds]
    exact nodup_reverse.mpr hinv.tables.ids
  · intro c hc
    obtain ⟨row, hrow, hid, hconsumed, hexpires, hcode⟩ := (hinv.tables.consumptions c hc).row
    obtain ⟨code, hsent, hsentCode⟩ := hinv.tables.sent row hrow
    have hsame : code = c.code := hhash (hsentCode.symm.trans hcode)
    rw [hid, hsame] at hsent
    exact ⟨hsent, row, hrow, hid, hconsumed, hexpires⟩
  · intro horderly
    have hall : OrderlyInv config s :=
      guarded_run_invariant (serviceStep config)
        (fun _ _ _ h horderly hstep => ⟨step_inv h.inv hstep,
          step_counted h.inv h.counted horderly hstep,
          step_inTime h.inv h.inTime horderly hstep⟩)
        ⟨started_inv, started_counted, forall_mem_nil _⟩ horderly hrun
    exact ⟨hall.counted.bound, hall.inTime⟩

end Steps

/-! ## Two runs -/

def signInConfig : Config String := ⟨.signIn, id, 1, 600000, false⟩

def atTime (time : Int) : Choice := ⟨time, false, "otp_1", "123456", ⟨some true, none⟩⟩

/-- A code is sent and verified, and a second call finds it used. -/
def verifiedOnce : List (Act Request Choice) :=
  [.spawn .sendOtpChallenge, .move 0 (atTime 0), .move 0 (atTime 1), .move 0 (atTime 2),
    .spawn (.verifyOtpChallenge "123456"), .move 1 (atTime 3), .move 1 (atTime 4),
    .move 1 (atTime 5), .move 1 (atTime 6), .spawn (.verifyOtpChallenge "123456"),
    .move 2 (atTime 7), .move 2 (atTime 8)]

theorem verifiedOnce_resists : ∃ s, run (serviceStep signInConfig) ⟨.empty, []⟩ verifiedOnce =
    some s ∧ (s.shared.consumptions.map (·.id)).Nodup ∧
      ∀ id, attempts s.shared id ≤ signInConfig.maxAttempts := by
  obtain ⟨s, hrun⟩ := isSome_iff_exists.mp
    (show (run (serviceStep signInConfig) ⟨.empty, []⟩ verifiedOnce).isSome = true by
      decide +kernel)
  have horderly : Guarded (serviceStep signInConfig)
      (fun s a => Orderly signInConfig s a = true) ⟨.empty, []⟩ verifiedOnce := by decide +kernel
  obtain ⟨⟨honce, -⟩, hbounded⟩ := challenges_resist Function.injective_id hrun
  exact ⟨s, hrun, honce, (hbounded horderly).1⟩

/-- Two wrong codes are verified together. -/
def guessedTogether : List (Act Request Choice) :=
  [.spawn .sendOtpChallenge, .move 0 (atTime 0), .move 0 (atTime 1), .move 0 (atTime 2),
    .spawn (.verifyOtpChallenge "000000"), .spawn (.verifyOtpChallenge "000001"),
    .move 1 (atTime 3), .move 2 (atTime 4), .move 1 (atTime 5), .move 2 (atTime 6)]

theorem guessedTogether_exceeds :
    ¬∀ s, run (serviceStep signInConfig) ⟨.empty, []⟩ guessedTogether = some s →
      attempts s.shared "otp_1" ≤ signInConfig.maxAttempts := by
  intro h
  have hends : (run (serviceStep signInConfig) ⟨.empty, []⟩ guessedTogether).any
      (fun s => decide (signInConfig.maxAttempts < attempts s.shared "otp_1")) = true := by
    decide +kernel
  obtain ⟨s, hrun, hs⟩ := (any_eq_true _ _).mp hends
  have hexceeds := of_decide_eq_true hs
  exact absurd (h s hrun) (Nat.not_le.mpr hexceeds)

end SuperFunctions.Authfn.OtpAttempts
