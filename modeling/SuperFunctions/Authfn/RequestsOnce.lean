import Mathlib.Algebra.Order.BigOperators.Group.List
import SuperFunctions.Authfn.Routing

/-!
# Requests are executed once

An accepted nonce stays in the replay store for as long as its assertion can be accepted, if the
claim is made in a second in which the assertion still verifies. Each claim then stands for one
call, which runs the handlers or answers by a mismatch, and the gateway sends a request again only
after such an answer.
-/
namespace SuperFunctions.Authfn.RequestsOnce

open Lib.Processes Lib.Transition Routing List

variable {payload : SignedRoutingPayload} {state : CellState} {request : HttpRequest} {clock : Int}
  {cell : Nat} {phase phase' : CellPhase} {config : CellConfig} {choice : Choice}

section CellSteps

variable {digest : String → String}

theorem verifyPayload_signed {signed : List SignedRoutingPayload} {keyIds : List String}
    {skew : Int} (h : verifyPayload signed keyIds clock skew payload = true) :
    payload ∈ signed := by
  unfold verifyPayload at h
  simp only [Bool.and_eq_true, decide_eq_true_eq] at h
  exact h.1.1.2

/-- Everything one await of a cell's middleware can do. -/
inductive CellMove (digest : String → String) (config : CellConfig) (cell : Nat)
    (state : CellState) (s : Shared) (choice : Choice) (payload : SignedRoutingPayload)
    (request : HttpRequest) : CellPhase → Shared → CellPhase → Prop
  | verify (a : RoutingAssertion) (hpayload : payload = .request a) (hsigned : payload ∈ s.signed) :
      CellMove digest config cell state s choice payload request .arrived
        { s with cells := s.cells.set cell { state with clock := choice.clock } } (.verified a)
  | validate (a : RoutingAssertion)
      (hvalid : validateRequestAssertion digest a request config.audience = true) :
      CellMove digest config cell state s choice payload request (.verified a)
        { s with cells := s.cells.set cell { state with clock := choice.clock } } (.validated a)
  | claim (a : RoutingAssertion)
      (hfresh : (claim state.claims choice.clock a.nonce
        (a.expiresAt + config.clockSkewSeconds)).2 = true) :
      CellMove digest config cell state s choice payload request (.validated a)
        { s with
          cells := s.cells.set cell ⟨(claim state.claims choice.clock a.nonce
            (a.expiresAt + config.clockSkewSeconds)).1, choice.clock⟩
          claimed := (cell, a) :: s.claimed } (.claimed a)
  | replayed (a : RoutingAssertion)
      (hused : (claim state.claims choice.clock a.nonce
        (a.expiresAt + config.clockSkewSeconds)).2 = false) :
      CellMove digest config cell state s choice payload request (.validated a)
        { s with cells := s.cells.set cell ⟨(claim state.claims choice.clock a.nonce
            (a.expiresAt + config.clockSkewSeconds)).1, choice.clock⟩ } .rejected
  | reject (phase : CellPhase) :
      CellMove digest config cell state s choice payload request phase
        { s with cells := s.cells.set cell { state with clock := choice.clock } } .rejected
  | mismatch (a : RoutingAssertion) (answer : RoutingMismatchAssertion) :
      CellMove digest config cell state s choice payload request (.claimed a)
        { s with
          cells := s.cells.set cell { state with clock := choice.clock }
          signed := .mismatch answer :: s.signed
          mismatches := (cell, a) :: s.mismatches } (.mismatched a answer)
  | execute (a : RoutingAssertion) :
      CellMove digest config cell state s choice payload request (.claimed a)
        { s with
          cells := s.cells.set cell { state with clock := choice.clock }
          executions := (cell, a, request) :: s.executions } (.executed a)

theorem cellStep_cases {s t : Shared}
    (h : cellStep digest config cell state s choice payload request phase = some (t, phase')) :
    state.clock ≤ choice.clock ∧
      CellMove digest config cell state s choice payload request phase t phase' := by
  unfold cellStep at h
  split at h
  · cases h
  rename_i hclock
  refine ⟨by omega, ?_⟩
  split at h
  · split at h
    · rename_i hverified
      split at h
      · cases h
        exact .verify _ rfl (verifyPayload_signed hverified)
      · cases h
        exact .reject _
    · cases h
      exact .reject _
  · split at h
    · rename_i hvalid
      cases h
      exact .validate _ hvalid
    · cases h
      exact .reject _
  · dsimp only at h
    split at h
    · rename_i hfresh
      cases h
      exact .claim _ hfresh
    · rename_i hused
      cases h
      exact .replayed _ (by simpa using hused)
  · split at h
    · cases h
      exact .reject _
    split at h
    · cases h
      exact .reject _
    split at h
    · cases h
      exact .reject _
    split at h
    · cases h
      exact .mismatch _ _
    · cases h
      exact .execute _
  · cases h

end CellSteps

variable {call' call : Call}

section Steps

variable {digest : String → String} {gateway : GatewayConfig} {cells : List CellConfig}

/-- Everything one move of a call can do. -/
inductive Moved (digest : String → String) (gateway : GatewayConfig) (cells : List CellConfig)
    (s : Shared) (choice : Choice) (call : Call) : Shared → Call → Prop
  | forward (identityKey : String) (request : HttpRequest) (attempt : Nat)
      (placement : Placement.AuthFnIdentityPlacement) (config : CellConfig)
      (horigin : call.origin = .client identityKey request)
      (hphase : call.phase = .routing attempt) (hconfig : cells[choice.cell]? = some config)
      (a : RoutingAssertion)
      (ha : a = routingAssertion digest gateway identityKey request choice placement
        config.audience) :
      Moved digest gateway cells s choice call { s with signed := .request a :: s.signed }
        { call with
          phase := .atCell attempt choice.cell (.request a) request .arrived
          dispatched := (choice.cell, a) :: call.dispatched }
  | resend (cell attempt : Nat) (payload : SignedRoutingPayload) (request : HttpRequest)
      (horigin : call.origin = .captured cell payload request)
      (hphase : call.phase = .routing attempt) :
      Moved digest gateway cells s choice call s
        { call with phase := .atCell attempt cell payload request .arrived }
  | atCell (attempt cell : Nat) (payload : SignedRoutingPayload) (request : HttpRequest)
      (phase phase' : CellPhase) (config : CellConfig) (state : CellState) (t : Shared)
      (hphase : call.phase = .atCell attempt cell payload request phase)
      (hconfig : cells[cell]? = some config) (hstate : s.cells[cell]? = some state)
      (hclock : state.clock ≤ choice.clock)
      (hmove : CellMove digest config cell state s choice payload request phase t phase') :
      Moved digest gateway cells s choice call t
        { call with phase := .atCell attempt cell payload request phase' }
  | retry (identityKey : String) (original : HttpRequest) (cell : Nat)
      (payload : SignedRoutingPayload) (request : HttpRequest) (a : RoutingAssertion)
      (answer : RoutingMismatchAssertion) (horigin : call.origin = .client identityKey original)
      (hphase : call.phase = .atCell 0 cell payload request (.mismatched a answer))
      (hsigned : .mismatch answer ∈ s.signed)
      (hanswers : answersDispatch answer identityKey original a = true) :
      Moved digest gateway cells s choice call s { call with phase := .routing 1 }
  | finish (hphase : ∀ attempt cell payload request a, call.phase ≠
        .atCell attempt cell payload request (.claimed a)) :
      Moved digest gateway cells s choice call s { call with phase := .done }

theorem step_cases {s t : Shared} {i : Nat}
    (h : step digest gateway cells s i call choice = some (t, call')) :
    Moved digest gateway cells s choice call t call' := by
  unfold step at h
  split at h
  · rename_i attempt hphase
    have hfree : ∀ attempt cell payload request a, call.phase ≠
        .atCell attempt cell payload request (.claimed a) := by
      intro _ _ _ _ _ hat
      rw [hphase] at hat
      cases hat
    split at h
    · rename_i identityKey request horigin
      unfold forward at h
      split at h
      · rename_i placement config _ hconfig
        split at h
        · cases h
          exact .forward identityKey request attempt placement config horigin hphase hconfig _ rfl
        · cases h
          exact .finish hfree
      · cases h
        exact .finish hfree
    · rename_i cell payload request horigin
      cases h
      exact .resend cell attempt payload request horigin hphase
  · rename_i attempt cell payload request phase hphase
    split at h
    · rename_i hfinal
      have hfree : ∀ attempt cell payload request a, call.phase ≠
          .atCell attempt cell payload request (.claimed a) := by
        intro _ _ _ _ _ hat
        rw [hphase] at hat
        cases hat
        cases hfinal
      unfold respond at h
      split at h
      · rename_i identityKey original a answer horigin
        split at h
        · rename_i hretry
          cases h
          obtain ⟨hfirst, -, hverified, hanswers⟩ := hretry
          subst hfirst
          exact .retry identityKey original cell payload request a answer horigin hphase
            (verifyPayload_signed hverified) hanswers
        · cases h
          exact .finish hfree
      · cases h
        exact .finish hfree
    · split at h
      · rename_i config state hconfig hstate
        obtain ⟨⟨t', phase'⟩, hr, hcall⟩ := Option.map_eq_some_iff.mp h
        cases hcall
        obtain ⟨hclock, hmove⟩ := cellStep_cases hr
        exact .atCell attempt cell payload request phase phase' config state t' hphase hconfig
          hstate hclock hmove
      · cases h
  · cases h

end Steps

section ReplayStore

/-- A nonce is in the store, or the last second its claim was kept for is over. -/
def Remembers (state : CellState) (nonce : String) (expiry : Int) : Prop :=
  (nonce, expiry) ∈ state.claims ∨ expiry < seconds state.clock

theorem seconds_mono {clock' : Int} (h : clock ≤ clock') : seconds clock ≤ seconds clock' := by
  unfold seconds
  omega

variable {expiry : Int} {nonce : String}

theorem remembers_tick (h : Remembers state nonce expiry) (hclock : state.clock ≤ clock) :
    Remembers { state with clock := clock } nonce expiry := by
  rcases h with hmem | hover
  · exact .inl hmem
  · have hsec := seconds_mono hclock
    exact .inr (by show expiry < seconds clock; omega)

variable {claims : List (String × Int)}

theorem mem_claim {expiresAt : Int} {c : String × Int} (hmem : c ∈ claims)
    (hkept : seconds clock ≤ c.2) : c ∈ (claim claims clock nonce expiresAt).1 := by
  have hfilter : c ∈ claims.filter fun c => !decide (c.2 < seconds clock) := by
    rw [mem_filter]
    refine ⟨hmem, ?_⟩
    simp only [Bool.not_eq_true', decide_eq_false_iff_not]
    omega
  unfold claim
  dsimp only
  split
  · exact hfilter
  · exact mem_append_left _ hfilter

theorem remembers_claim {nonce' : String} {expiry' : Int} (h : Remembers state nonce expiry)
    (hclock : state.clock ≤ clock) :
    Remembers ⟨(claim state.claims clock nonce' expiry').1, clock⟩ nonce expiry := by
  have hsec := seconds_mono hclock
  rcases h with hmem | hover
  · by_cases hkept : seconds clock ≤ expiry
    · exact .inl (mem_claim hmem hkept)
    · exact .inr (by show expiry < seconds clock; omega)
  · exact .inr (by show expiry < seconds clock; omega)

theorem remembers_claimed (h : (claim claims clock nonce expiry).2 = true) :
    Remembers ⟨(claim claims clock nonce expiry).1, clock⟩ nonce expiry := by
  left
  unfold claim at h ⊢
  dsimp only at h ⊢
  split at h
  · cases h
  · rename_i hnew
    rw [if_neg hnew]
    exact mem_append_right _ (mem_singleton.mpr rfl)

theorem claim_remembered (h : Remembers state nonce expiry) (hclock : state.clock ≤ clock)
    (htimely : seconds clock ≤ expiry) : (claim state.claims clock nonce expiry).2 = false := by
  have hsec := seconds_mono hclock
  rcases h with hmem | hover
  · unfold claim
    rw [if_pos]
    apply any_eq_true.mpr
    refine ⟨(nonce, expiry), ?_, decide_eq_true rfl⟩
    rw [mem_filter]
    refine ⟨hmem, ?_⟩
    simp only [Bool.not_eq_true', decide_eq_false_iff_not]
    omega
  · omega

end ReplayStore

section Invariants

variable (digest : String → String) (cells : List CellConfig)

/-- A claim of the nonce of `a` that the store can still answer, or that it has not answered
before. -/
def TimelyClaim (s : Shared) (choice : Choice) (call : Call) : Prop :=
  match call.phase with
  | .atCell _ cell _ _ (.validated a) =>
    (cell, a) ∉ s.claimed ∨
      ∀ config ∈ cells[cell]?, seconds choice.clock ≤ a.expiresAt + config.clockSkewSeconds
  | _ => True

def TimelyAct (s : Deployment) : Act Origin Choice → Prop
  | .spawn _ => True
  | .move i choice => ∀ call ∈ s.procs[i]?, TimelyClaim cells s.shared choice call

instance (s : Shared) (choice : Choice) (call : Call) :
    Decidable (TimelyClaim cells s choice call) := by
  unfold TimelyClaim
  split <;> infer_instance

instance (s : Deployment) : (a : Act Origin Choice) → Decidable (TimelyAct cells s a)
  | .spawn _ => isTrue trivial
  | .move i choice =>
    inferInstanceAs (Decidable (∀ call ∈ s.procs[i]?, TimelyClaim cells s.shared choice call))

/-- What a cell has made sure of at each await. -/
def PhaseInv (s : Shared) (cell : Nat) (payload : SignedRoutingPayload) (request : HttpRequest) :
    CellPhase → Prop
  | .verified a => payload = .request a ∧ .request a ∈ s.signed
  | .validated a => payload = .request a ∧ .request a ∈ s.signed ∧ ∃ config,
      cells[cell]? = some config ∧ validateRequestAssertion digest a request config.audience = true
  | .claimed a => payload = .request a ∧ .request a ∈ s.signed ∧ ∃ config,
      cells[cell]? = some config ∧ validateRequestAssertion digest a request config.audience = true
  | .mismatched a _ => payload = .request a ∧ (cell, a) ∈ s.mismatches
  | _ => True

/-- The cell answered the dispatch by a signed mismatch about the client's request. -/
def Answered (s : Shared) (origin : Origin) (d : Nat × RoutingAssertion) : Prop :=
  ∃ identityKey request answer, origin = .client identityKey request ∧ d ∈ s.mismatches ∧
    .mismatch answer ∈ s.signed ∧ answersDispatch answer identityKey request d.2 = true

/-- The dispatches a call has made when it is where it is. -/
def Progress (s : Shared) (call : Call) : Prop :=
  match call.phase with
  | .routing 0 => call.dispatched = []
  | .routing (_ + 1) => ∃ first, call.dispatched = [first] ∧ Answered s call.origin first
  | .atCell 0 cell payload _ _ =>
    match call.origin with
    | .client _ _ => ∃ a, payload = .request a ∧ call.dispatched = [(cell, a)]
    | .captured _ _ _ => call.dispatched = []
  | .atCell (_ + 1) _ _ _ _ =>
    ∃ second first, call.dispatched = [second, first] ∧ Answered s call.origin first
  | .done => ∀ second first rest, call.dispatched = second :: first :: rest →
      rest = [] ∧ Answered s call.origin first

/-- The dispatch carries what the client asked for. -/
def SentFor (origin : Origin) (d : Nat × RoutingAssertion) : Prop :=
  ∃ identityKey request config, origin = .client identityKey request ∧
    cells[d.1]? = some config ∧ d.2.audience = config.audience ∧ d.2.method = request.method ∧
    d.2.path = request.path ∧ d.2.requestId = request.requestId ∧
    d.2.bodySha256 = requestBodyDigest digest request

structure CallInv (s : Shared) (call : Call) : Prop where
  phase : ∀ attempt cell payload request phase,
    call.phase = .atCell attempt cell payload request phase →
      PhaseInv digest cells s cell payload request phase
  progress : Progress s call
  sent : ∀ d ∈ call.dispatched, SentFor digest cells call.origin d

/-- A call that holds the claim of an assertion and has not used it yet. -/
def holding (k : Nat × RoutingAssertion) (call : Call) : Int :=
  match call.phase with
  | .atCell _ cell _ _ (.claimed a) => if (cell, a) = k then 1 else 0
  | _ => 0

/-- The claims that have been used: to run the handlers or to answer by a mismatch. -/
def used (s : Shared) : List (Nat × RoutingAssertion) :=
  s.executions.map (fun e => (e.1, e.2.1)) ++ s.mismatches

/-- What the cells keep of the claims they have accepted. -/
structure Remembered (s : Shared) : Prop where
  nodup : s.claimed.Nodup
  kept : ∀ cell a config state, (cell, a) ∈ s.claimed → cells[cell]? = some config →
    s.cells[cell]? = some state → Remembers state a.nonce (a.expiresAt + config.clockSkewSeconds)

structure Inv (s : Deployment) : Prop where
  each : Each (fun shared _ call => CallInv digest cells shared call) s
  remembered : Remembered cells s.shared
  budget : ∀ k, ((used s.shared).count k : Int) + total (holding k) s ≤ s.shared.claimed.count k
  executed : ∀ e ∈ s.shared.executions, .request e.2.1 ∈ s.shared.signed ∧ ∃ config,
    cells[e.1]? = some config ∧ validateRequestAssertion digest e.2.1 e.2.2 config.audience = true
  source : ∀ a, .request a ∈ s.shared.signed → ∃ call ∈ s.procs, ∃ cell, (cell, a) ∈ call.dispatched

end Invariants

section Growth

variable {digest : String → String} {cells : List CellConfig}

/-- Signatures and mismatches are never taken back. -/
structure Grows (s t : Shared) : Prop where
  signed : ∀ p ∈ s.signed, p ∈ t.signed
  mismatches : ∀ d ∈ s.mismatches, d ∈ t.mismatches

theorem Grows.refl (s : Shared) : Grows s s := ⟨fun _ => id, fun _ => id⟩

variable {s t : Shared}

theorem Answered.grow (hgrow : Grows s t) {origin : Origin} {d : Nat × RoutingAssertion}
    (h : Answered s origin d) : Answered t origin d := by
  obtain ⟨identityKey, request, answer, horigin, hmem, hsigned, hanswers⟩ := h
  exact ⟨identityKey, request, answer, horigin, hgrow.mismatches d hmem,
    hgrow.signed _ hsigned, hanswers⟩

theorem PhaseInv.grow (hgrow : Grows s t) (h : PhaseInv digest cells s cell payload request phase) :
    PhaseInv digest cells t cell payload request phase := by
  cases phase with
  | verified a => exact ⟨h.1, hgrow.signed _ h.2⟩
  | validated a | claimed a => exact ⟨h.1, hgrow.signed _ h.2.1, h.2.2⟩
  | mismatched a answer => exact ⟨h.1, hgrow.mismatches _ h.2⟩
  | arrived => trivial
  | executed a => trivial
  | rejected => trivial

theorem Progress.grow (hgrow : Grows s t) (h : Progress s call) : Progress t call := by
  unfold Progress at h ⊢
  split
  · rename_i hphase
    rwa [hphase] at h
  · rename_i hphase
    rw [hphase] at h
    obtain ⟨first, hsent, hanswered⟩ := h
    exact ⟨first, hsent, hanswered.grow hgrow⟩
  · rename_i hphase
    rwa [hphase] at h
  · rename_i hphase
    rw [hphase] at h
    obtain ⟨second, first, hsent, hanswered⟩ := h
    exact ⟨second, first, hsent, hanswered.grow hgrow⟩
  · rename_i hphase
    rw [hphase] at h
    intro second first rest hsent
    obtain ⟨hrest, hanswered⟩ := h second first rest hsent
    exact ⟨hrest, hanswered.grow hgrow⟩

theorem CallInv.grow (hgrow : Grows s t) (h : CallInv digest cells s call) :
    CallInv digest cells t call := { h with
  phase := fun attempt cell payload request phase hphase =>
    (h.phase attempt cell payload request phase hphase).grow hgrow
  progress := h.progress.grow hgrow }

/-- A call never has more dispatches than a retry makes of it, and a retry was answered for. -/
theorem Progress.justified (h : Progress s call) {second first : Nat × RoutingAssertion}
    {rest : List (Nat × RoutingAssertion)} (hsent : call.dispatched = second :: first :: rest) :
    rest = [] ∧ Answered s call.origin first := by
  unfold Progress at h
  split at h
  · rw [hsent] at h
    cases h
  · obtain ⟨d, hone, -⟩ := h
    rw [hsent] at hone
    cases hone
  · split at h
    · obtain ⟨a, -, hone⟩ := h
      rw [hsent] at hone
      cases hone
    · rw [hsent] at h
      cases h
  · obtain ⟨d, e, htwo, hanswered⟩ := h
    rw [hsent] at htwo
    cases htwo
    exact ⟨rfl, hanswered⟩
  · exact h second first rest hsent

end Growth

section Steps

variable {digest : String → String} {gateway : GatewayConfig} {cells : List CellConfig}

variable {s t : Shared}

theorem remembered_set {state' : CellState} (h : Remembered cells s)
    (hstate : s.cells[cell]? = some state) (hcells : t.cells = s.cells.set cell state')
    (hclaimed : t.claimed = s.claimed)
    (hkeep : ∀ nonce expiry, Remembers state nonce expiry → Remembers state' nonce expiry) :
    Remembered cells t := by
  refine ⟨by rw [hclaimed]; exact h.nodup, ?_⟩
  intro c a config after hmem hconfig hafter
  rw [hclaimed] at hmem
  rw [hcells] at hafter
  by_cases hc : c = cell
  · subst hc
    have hlen : c < s.cells.length := (List.getElem?_eq_some_iff.mp hstate).1
    rw [getElem?_set_self hlen] at hafter
    have hsame : state' = after := Option.some.inj hafter
    rw [← hsame]
    exact hkeep _ _ (h.kept c a config state hmem hconfig hstate)
  · rw [getElem?_set_ne (fun heq => hc heq.symm)] at hafter
    exact h.kept c a config after hmem hconfig hafter

variable {choice : Choice}

theorem remembered_claim {a : RoutingAssertion} (h : Remembered cells s)
    (hconfig : cells[cell]? = some config) (hstate : s.cells[cell]? = some state)
    (hclock : state.clock ≤ choice.clock) (hfresh : (claim state.claims choice.clock a.nonce
      (a.expiresAt + config.clockSkewSeconds)).2 = true) (htimely : (cell, a) ∉ s.claimed ∨
      seconds choice.clock ≤ a.expiresAt + config.clockSkewSeconds) :
    Remembered cells { s with
      cells := s.cells.set cell ⟨(claim state.claims choice.clock a.nonce
        (a.expiresAt + config.clockSkewSeconds)).1, choice.clock⟩
      claimed := (cell, a) :: s.claimed } := by
  have hnew : (cell, a) ∉ s.claimed := by
    rcases htimely with hnew | htimely
    · exact hnew
    · intro hmem
      have hused := claim_remembered (h.kept cell a config state hmem hconfig hstate) hclock htimely
      rw [hused] at hfresh
      cases hfresh
  refine ⟨nodup_cons.mpr ⟨hnew, h.nodup⟩, ?_⟩
  intro c b config' after hmem hconfig' hafter
  have hlen : cell < s.cells.length := (List.getElem?_eq_some_iff.mp hstate).1
  rcases mem_cons.mp hmem with hsame | hold
  · obtain ⟨rfl, rfl⟩ := Prod.mk.inj hsame
    have hconf : config = config' := Option.some.inj (hconfig.symm.trans hconfig')
    subst hconf
    have hset : _ = some after := hafter
    rw [getElem?_set_self hlen] at hset
    rw [← Option.some.inj hset]
    exact remembers_claimed hfresh
  · by_cases hc : c = cell
    · subst hc
      have hset : _ = some after := hafter
      rw [getElem?_set_self hlen] at hset
      rw [← Option.some.inj hset]
      exact remembers_claim (h.kept c b config' state hold hconfig' hstate) hclock
    · have hset : _ = some after := hafter
      rw [getElem?_set_ne (fun heq => hc heq.symm)] at hset
      exact h.kept c b config' after hold hconfig' hset

/-- What a move leaves behind, for the call that made it and for all. -/
structure Effect (digest : String → String) (cells : List CellConfig) (s t : Shared)
    (call call' : Call) : Prop where
  grows : Grows s t
  own : CallInv digest cells t call'
  remembered : Remembered cells t
  budget : ∀ k, ((used t).count k : Int) + holding k call' + s.claimed.count k ≤
    (used s).count k + holding k call + t.claimed.count k
  executed : ∀ e ∈ t.executions, e ∈ s.executions ∨ .request e.2.1 ∈ t.signed ∧ ∃ config,
    cells[e.1]? = some config ∧ validateRequestAssertion digest e.2.1 e.2.2 config.audience = true
  source : ∀ a, .request a ∈ t.signed → .request a ∈ s.signed ∨ ∃ cell, (cell, a) ∈ call'.dispatched
  dispatched : ∀ d ∈ call.dispatched, d ∈ call'.dispatched

theorem progress_atCell (hgrow : Grows s t) {attempt : Nat}
    (hphase : call.phase = .atCell attempt cell payload request phase) (h : Progress s call)
    (phase' : CellPhase) :
    Progress t { call with phase := .atCell attempt cell payload request phase' } := by
  have hgrown := h.grow hgrow
  unfold Progress at hgrown ⊢
  rw [hphase] at hgrown
  cases attempt with
  | zero | succ n => exact hgrown

theorem holding_nonneg (k : Nat × RoutingAssertion) (call : Call) : 0 ≤ holding k call := by
  unfold holding
  split
  · split <;> omega
  · omega

theorem budget_idle (hused : used t = used s) (hclaimed : t.claimed = s.claimed)
    (hfree : ∀ k, holding k call' = 0) (k : Nat × RoutingAssertion) :
    ((used t).count k : Int) + holding k call' + s.claimed.count k ≤
      (used s).count k + holding k call + t.claimed.count k := by
  have hnonneg := holding_nonneg k call
  rw [hused, hclaimed, hfree k]
  omega

theorem cellMove_effect {attempt : Nat}
    (hphase : call.phase = .atCell attempt cell payload request phase)
    (hconfig : cells[cell]? = some config) (hstate : s.cells[cell]? = some state)
    (hclock : state.clock ≤ choice.clock) (hcall : CallInv digest cells s call)
    (hremembered : Remembered cells s) (htimely : TimelyClaim cells s choice call)
    (hmove : CellMove digest config cell state s choice payload request phase t phase') :
    Effect digest cells s t call
      { call with phase := .atCell attempt cell payload request phase' } := by
  have hknown := hcall.phase attempt cell payload request phase hphase
  have hown : ∀ (hgrow : Grows s t), PhaseInv digest cells t cell payload request phase' →
      CallInv digest cells t { call with phase := .atCell attempt cell payload request phase' } := by
    intro hgrow hnext
    refine ⟨?_, progress_atCell hgrow hphase hcall.progress phase', hcall.sent⟩
    intro _ _ _ _ _ heq
    cases heq
    exact hnext
  have htick : ∀ nonce expiry, Remembers state nonce expiry →
      Remembers { state with clock := choice.clock } nonce expiry :=
    fun _ _ h => remembers_tick h hclock
  have hholding : ∀ k, holding k call = holding k
      { call with phase := .atCell attempt cell payload request phase } := by
    intro k
    rw [← hphase]
  cases hmove with
  | verify a hpayload hsigned =>
    have hgrow : Grows s { s with
        cells := s.cells.set cell { state with clock := choice.clock } } :=
      ⟨fun _ => id, fun _ => id⟩
    refine ⟨hgrow, hown hgrow ⟨hpayload, hpayload ▸ hsigned⟩,
      remembered_set hremembered hstate rfl rfl htick, budget_idle rfl rfl fun _ => rfl,
      fun _ h => .inl h, fun _ h => .inl h, fun _ => id⟩
  | validate a hvalid =>
    have hgrow : Grows s { s with
        cells := s.cells.set cell { state with clock := choice.clock } } :=
      ⟨fun _ => id, fun _ => id⟩
    refine ⟨hgrow, hown hgrow ⟨hknown.1, hknown.2, config, hconfig, hvalid⟩,
      remembered_set hremembered hstate rfl rfl htick, budget_idle rfl rfl fun _ => rfl,
      fun _ h => .inl h, fun _ h => .inl h, fun _ => id⟩
  | claim a hfresh =>
    have hok : (cell, a) ∉ s.claimed ∨
        seconds choice.clock ≤ a.expiresAt + config.clockSkewSeconds := by
      unfold TimelyClaim at htimely
      rw [hphase] at htimely
      exact htimely.imp id fun h => h config hconfig
    refine ⟨⟨fun _ => id, fun _ => id⟩, hown ⟨fun _ => id, fun _ => id⟩ hknown,
      remembered_claim hremembered hconfig hstate hclock hfresh hok, ?_, fun _ h => .inl h,
      fun _ h => .inl h, fun _ => id⟩
    intro k
    rw [hholding k]
    simp only [holding, used, count_cons, beq_iff_eq]
    split <;> omega
  | replayed a hused =>
    refine ⟨⟨fun _ => id, fun _ => id⟩, hown ⟨fun _ => id, fun _ => id⟩ trivial,
      remembered_set hremembered hstate rfl rfl fun _ _ h => remembers_claim h hclock,
      budget_idle rfl rfl fun _ => rfl, fun _ h => .inl h, fun _ h => .inl h, fun _ => id⟩
  | reject phase =>
    refine ⟨⟨fun _ => id, fun _ => id⟩, hown ⟨fun _ => id, fun _ => id⟩ trivial,
      remembered_set hremembered hstate rfl rfl htick, budget_idle rfl rfl fun _ => rfl,
      fun _ h => .inl h, fun _ h => .inl h, fun _ => id⟩
  | mismatch a answer =>
    have hgrow : Grows s { s with
        cells := s.cells.set cell { state with clock := choice.clock }
        signed := .mismatch answer :: s.signed
        mismatches := (cell, a) :: s.mismatches } :=
      ⟨fun _ h => mem_cons_of_mem _ h, fun _ h => mem_cons_of_mem _ h⟩
    refine ⟨hgrow, hown hgrow ⟨hknown.1, mem_cons_self⟩,
      remembered_set hremembered hstate rfl rfl htick, ?_, fun _ h => .inl h, ?_, fun _ => id⟩
    · intro k
      rw [hholding k]
      simp only [holding, used, count_append, count_cons, beq_iff_eq]
      split <;> omega
    · intro b hb
      rcases mem_cons.mp hb with heq | hmem
      · cases heq
      · exact .inl hmem
  | execute a =>
    refine ⟨⟨fun _ => id, fun _ => id⟩, hown ⟨fun _ => id, fun _ => id⟩ trivial,
      remembered_set hremembered hstate rfl rfl htick, ?_, ?_, fun _ h => .inl h, fun _ => id⟩
    · intro k
      rw [hholding k]
      simp only [holding, used, map_cons, cons_append, count_cons, beq_iff_eq]
      split <;> omega
    · intro e he
      rcases mem_cons.mp he with heq | hmem
      · rw [heq]
        exact .inr hknown.2
      · exact .inl hmem

theorem moved_effect (hcall : CallInv digest cells s call) (hremembered : Remembered cells s)
    (htimely : TimelyClaim cells s choice call)
    (hmoved : Moved digest gateway cells s choice call t call') :
    Effect digest cells s t call call' := by
  have hprogress := hcall.progress
  cases hmoved with
  | forward identityKey request attempt placement config horigin hphase hconfig a ha =>
    have hgrow : Grows s { s with signed := .request a :: s.signed } :=
      ⟨fun _ h => mem_cons_of_mem _ h, fun _ => id⟩
    have hsent : SentFor digest cells call.origin (choice.cell, a) := by
      subst ha
      exact ⟨identityKey, request, config, horigin, hconfig, rfl, rfl, rfl, rfl, rfl⟩
    refine ⟨hgrow, ⟨?_, ?_, ?_⟩, ⟨hremembered.nodup, hremembered.kept⟩,
      budget_idle rfl rfl fun _ => rfl, fun _ h => .inl h, ?_,
      fun _ h => mem_cons_of_mem _ h⟩
    · intro _ _ _ _ _ heq
      cases heq
      trivial
    · unfold Progress at hprogress ⊢
      rw [hphase] at hprogress
      cases attempt with
      | zero =>
        rw [horigin, hprogress]
        exact ⟨a, rfl, rfl⟩
      | succ n =>
        obtain ⟨first, hone, hanswered⟩ := hprogress
        exact ⟨(choice.cell, a), first, by rw [hone], hanswered.grow hgrow⟩
    · intro d hd
      rcases mem_cons.mp hd with rfl | hold
      · exact hsent
      · exact hcall.sent d hold
    · intro b hb
      rcases mem_cons.mp hb with heq | hold
      · cases heq
        exact .inr ⟨choice.cell, mem_cons_self⟩
      · exact .inl hold
  | resend cell attempt payload request horigin hphase =>
    refine ⟨Grows.refl s, ⟨?_, ?_, hcall.sent⟩, hremembered, budget_idle rfl rfl fun _ => rfl,
      fun _ h => .inl h, fun _ h => .inl h, fun _ => id⟩
    · intro _ _ _ _ _ heq
      cases heq
      trivial
    unfold Progress at hprogress ⊢
    rw [hphase] at hprogress
    cases attempt with
    | zero =>
      rwa [horigin]
    | succ n =>
      obtain ⟨first, -, identityKey, other, answer, hclient, -⟩ := hprogress
      rw [horigin] at hclient
      cases hclient
  | atCell attempt cell payload request phase phase' config state t hphase hconfig hstate hclock
      hmove =>
    exact cellMove_effect hphase hconfig hstate hclock hcall hremembered htimely hmove
  | retry identityKey original cell payload request a answer horigin hphase hsigned hanswers =>
    refine ⟨Grows.refl s, ⟨?_, ?_, hcall.sent⟩, hremembered, budget_idle rfl rfl fun _ => rfl,
      fun _ h => .inl h, fun _ h => .inl h, fun _ => id⟩
    · intro _ _ _ _ _ heq
      cases heq
    have hknown := hcall.phase 0 cell payload request _ hphase
    unfold Progress at hprogress ⊢
    rw [hphase, horigin] at hprogress
    obtain ⟨b, hpayload, hone⟩ := hprogress
    have hab : SignedRoutingPayload.request b = .request a := hpayload.symm.trans hknown.1
    cases hab
    exact ⟨(cell, a), hone, identityKey, original, answer, horigin, hknown.2, hsigned, hanswers⟩
  | finish hfree =>
    refine ⟨Grows.refl s, ⟨?_, ?_, hcall.sent⟩, hremembered, budget_idle rfl rfl fun _ => rfl,
      fun _ h => .inl h, fun _ h => .inl h, fun _ => id⟩
    · intro _ _ _ _ _ heq
      cases heq
    intro second first rest hsent
    exact hprogress.justified hsent

theorem inv_step (s : Deployment) (a : Act Origin Choice) (s' : Deployment)
    (hinv : Inv digest cells s) (htimely : TimelyAct cells s a)
    (h : deploymentStep digest gateway cells s a = some s') : Inv digest cells s' := by
  rcases act_cases h with ⟨origin, rfl, rfl⟩ | ⟨i, choice, call, t, call', rfl, hcall, hmove, rfl⟩
  · refine ⟨?_, hinv.remembered, ?_, hinv.executed, ?_⟩
    · apply each_spawn hinv.each
      refine ⟨?_, rfl, nofun⟩
      intro _ _ _ _ _ heq
      cases heq
    · intro k
      rw [total_spawn]
      have hzero : holding k (newCall origin) = 0 := rfl
      have hbudget := hinv.budget k
      dsimp only
      omega
    · intro a ha
      obtain ⟨call, hmem, cell, hsent⟩ := hinv.source a ha
      exact ⟨call, mem_append_left _ hmem, cell, hsent⟩
  · have heffect := moved_effect (hinv.each i call hcall) hinv.remembered (htimely call hcall)
      (step_cases hmove)
    refine ⟨?_, heffect.remembered, ?_, ?_, ?_⟩
    · refine each_move (G := fun shared _ call => CallInv digest cells shared call) heffect.own ?_
      intro j other _ hother
      exact (hinv.each j other hother).grow heffect.grows
    · intro k
      rw [total_move _ _ _ hcall]
      have hbudget := hinv.budget k
      have hspent := heffect.budget k
      dsimp only
      omega
    · intro e he
      rcases heffect.executed e he with hold | hnew
      · obtain ⟨hsigned, hvalid⟩ := hinv.executed e hold
        exact ⟨heffect.grows.signed _ hsigned, hvalid⟩
      · exact hnew
    · intro a ha
      have hlen : i < s.procs.length := (List.getElem?_eq_some_iff.mp hcall).1
      have hnow : call' ∈ s.procs.set i call' := mem_set hlen call'
      rcases heffect.source a ha with hold | ⟨cell, hsent⟩
      · obtain ⟨other, hmem, cell, hsent⟩ := hinv.source a hold
        obtain ⟨j, hj⟩ := mem_iff_getElem?.mp hmem
        by_cases hij : i = j
        · subst hij
          have hsame : call = other := Option.some.inj (hcall.symm.trans hj)
          subst hsame
          exact ⟨call', hnow, cell, heffect.dispatched _ hsent⟩
        · refine ⟨other, ?_, cell, hsent⟩
          apply mem_iff_getElem?.mpr
          exact ⟨j, by rw [← hj]; exact getElem?_set_ne hij⟩
      · exact ⟨call', hnow, cell, hsent⟩

theorem inv_start (clock : Int) : Inv digest cells (start cells clock) := by
  refine ⟨each_nil _ _, ⟨nodup_nil, nofun⟩, ?_, nofun, nofun⟩
  intro k
  simp [start, used, total]

end Steps

section Runs

variable {digest : String → String} {gateway : GatewayConfig} {cells : List CellConfig}

/-- The gateway signed the assertion for a client's request to this audience, and the request is
that one as far as the assertion covers it. -/
def Authentic (digest : String → String) (cells : List CellConfig) (s : Deployment) (cell : Nat)
    (a : RoutingAssertion) (request : HttpRequest) : Prop :=
  .request a ∈ s.shared.signed ∧ ∃ call ∈ s.procs, ∃ identityKey original target,
    call.origin = .client identityKey original ∧ (target, a) ∈ call.dispatched ∧
    (∃ config, cells[cell]? = some config ∧ config.audience = a.audience) ∧
    (∃ config, cells[target]? = some config ∧ config.audience = a.audience) ∧
    request.method = original.method ∧ request.path = original.path ∧
    request.requestId = original.requestId ∧
    requestBodyDigest digest request = requestBodyDigest digest original

theorem authentic_of_inv {s : Deployment} (hinv : Inv digest cells s) {a : RoutingAssertion}
    (hmem : (cell, a, request) ∈ s.shared.executions) :
    Authentic digest cells s cell a request := by
  obtain ⟨hsigned, config, hconfig, hvalid⟩ := hinv.executed _ hmem
  obtain ⟨call, hcall, target, hsent⟩ := hinv.source a hsigned
  obtain ⟨i, hi⟩ := mem_iff_getElem?.mp hcall
  obtain ⟨identityKey, original, config', horigin, hconfig', haudience, hmethod, hpath, hid, hbody⟩ :=
    (hinv.each i call hi).sent _ hsent
  obtain ⟨haud, hrid, hmeth, hpth, hbdy⟩ := of_decide_eq_true hvalid
  exact ⟨hsigned, call, hcall, identityKey, original, target, horigin, hsent,
    ⟨config, hconfig, haud.symm⟩, ⟨config', hconfig', haudience.symm⟩, hmeth.symm.trans hmethod,
    hpth.symm.trans hpath, hrid.symm.trans hid, hbdy.symm.trans hbody⟩

theorem used_le_one {s : Deployment} (hinv : Inv digest cells s) (k : Nat × RoutingAssertion) :
    (used s.shared).count k ≤ 1 := by
  have hbudget := hinv.budget k
  have hclaimed := nodup_iff_count_le_one.mp hinv.remembered.nodup k
  have htotal : 0 ≤ total (holding k) s := by
    apply sum_nonneg
    refine forall_mem_map.mpr fun call _ => ?_
    exact holding_nonneg k call
  omega

/-- In every run whose late claims are of assertions not claimed before, a cell runs its handlers
once for an assertion and only for what it was signed for, and a client request that was
dispatched twice has a signed mismatch for the first dispatch, which never ran. -/
theorem executed_once {clock : Int} {acts : List (Act Origin Choice)} {s : Deployment}
    (htimely : Guarded (deploymentStep digest gateway cells) (TimelyAct cells) (start cells clock)
      acts)
    (hrun : run (deploymentStep digest gateway cells) (start cells clock) acts = some s) :
    (∀ cell a, (s.shared.executions.map fun e => (e.1, e.2.1)).count (cell, a) ≤ 1) ∧
    (∀ cell a request, (cell, a, request) ∈ s.shared.executions →
      Authentic digest cells s cell a request) ∧
    ∀ call ∈ s.procs, ∀ second first rest, call.dispatched = second :: first :: rest →
      rest = [] ∧ Answered s.shared call.origin first ∧
        ∀ request, (first.1, first.2, request) ∉ s.shared.executions := by
  have hinv : Inv digest cells s :=
    guarded_run_invariant _ inv_step (inv_start clock) htimely hrun
  refine ⟨?_, fun cell a request hmem => authentic_of_inv hinv hmem, ?_⟩
  · intro cell a
    have hused := used_le_one hinv (cell, a)
    unfold used at hused
    rw [count_append] at hused
    omega
  · intro call hcall second first rest hsent
    obtain ⟨i, hi⟩ := mem_iff_getElem?.mp hcall
    obtain ⟨hrest, hanswered⟩ := (hinv.each i call hi).progress.justified hsent
    refine ⟨hrest, hanswered, ?_⟩
    intro request hexecuted
    obtain ⟨_, _, _, -, hmismatch, -⟩ := hanswered
    have hused := used_le_one hinv first
    have hran : 0 < (s.shared.executions.map fun e => (e.1, e.2.1)).count first := by
      apply count_pos_iff.mpr
      exact mem_map.mpr ⟨(first.1, first.2, request), hexecuted, rfl⟩
    have hanswer : 0 < s.shared.mismatches.count first := count_pos_iff.mpr hmismatch
    unfold used at hused
    rw [count_append] at hused
    omega

end Runs

section Boundary

def euCell : CellConfig := ⟨"eu", "eu-cell", "k1", [], 5⟩

def edge : GatewayConfig := ⟨"k1", [], 30, 5⟩

def home (epoch : Nat) : Placement.AuthFnIdentityPlacement :=
  ⟨"alice", "eu", epoch, .active, none, none, "t"⟩

def signIn : HttpRequest := ⟨"POST", "/auth/sign-in", "req-1", "secret"⟩

def moveAt (i : Nat) (clock : Int) (nonce : String) (epoch : Nat) : Act Origin Choice :=
  .move i ⟨clock, nonce, some (home epoch), 0, false⟩

def captured : SignedRoutingPayload :=
  .request ⟨"k1", "alice", "eu", 1, "req-1", "POST", "/auth/sign-in", "eu-cell", 0, 30,
    "0123456789abcdef", "secret"⟩

/-- The dispatch runs at once; its assertion is sent again, verified in second 35 and claimed in
second 36. -/
def resent : List (Act Origin Choice) :=
  .spawn (.client "alice" signIn) ::
    [0, 1000, 1001, 1002, 1003].map (fun clock => moveAt 0 clock "0123456789abcdef" 1) ++
  .spawn (.captured 0 captured signIn) ::
    [35000, 35999, 35999, 36000, 36000].map (fun clock => moveAt 1 clock "" 1)

/-- The sweep of second 36 forgets the nonce that second 35 still accepted: the handlers run twice
for one assertion. -/
theorem lateClaim_runs_twice :
    (run (deploymentStep id edge [euCell]) (start [euCell] 0) resent).map (fun s =>
      (s.shared.executions.map fun e => SignedRoutingPayload.request e.2.1).count captured) =
        some 2 := by
  decide +kernel

/-- The gateway dispatches on a placement of the past, gets a mismatch and dispatches again; the
first assertion is sent again as well. -/
def refreshed : List (Act Origin Choice) :=
  .spawn (.client "alice" signIn) :: moveAt 0 0 "0123456789abcdef" 1 ::
    [1000, 1001, 1002, 1003, 1004].map (fun clock => moveAt 0 clock "mismatch-of-eu-1" 2) ++
  [2000, 2001, 2002, 2003, 2004].map (fun clock => moveAt 0 clock "fedcba9876543210" 2) ++
  .spawn (.captured 0 captured signIn) ::
    [3000, 3001, 3002, 3003].map (fun clock => moveAt 1 clock "" 1)

theorem refreshed_executed_once :
    ∃ s, run (deploymentStep id edge [euCell]) (start [euCell] 0) refreshed = some s ∧
      s.shared.executions.length = 1 ∧ (∃ call ∈ s.procs, call.dispatched.length = 2) ∧
      ∀ cell a, (s.shared.executions.map fun e => (e.1, e.2.1)).count (cell, a) ≤ 1 := by
  have htimely : Guarded (deploymentStep id edge [euCell]) (TimelyAct [euCell]) (start [euCell] 0)
      refreshed := by
    decide +kernel
  have hends : (run (deploymentStep id edge [euCell]) (start [euCell] 0) refreshed).any (fun s =>
      decide (s.shared.executions.length = 1 ∧ ∃ call ∈ s.procs, call.dispatched.length = 2)) =
        true := by
    decide +kernel
  obtain ⟨s, hrun, hend⟩ := (Option.any_eq_true _ _).mp hends
  obtain ⟨hruns, htwice⟩ := of_decide_eq_true hend
  exact ⟨s, hrun, hruns, htwice, (executed_once htimely hrun).1⟩

end Boundary

end SuperFunctions.Authfn.RequestsOnce
