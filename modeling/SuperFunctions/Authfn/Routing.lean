import SuperFunctions.Authfn.Placement

/-!
# Routed requests

A gateway signs an assertion for each dispatch of a client request, and a cell verifies it, claims
its nonce and reads the placement before it runs its handlers. A captured assertion may be sent to
any cell, with any request, at any time; a signature verifies only for a payload that was signed.
-/
namespace SuperFunctions.Authfn.Routing

open Lib.Processes (System Act act)
open Placement

structure RoutingAssertion where
  keyId : String
  identityKey : String
  regionId : String
  epoch : Nat
  requestId : String
  method : String
  path : String
  audience : String
  issuedAt : Int
  expiresAt : Int
  nonce : String
  bodySha256 : String
deriving DecidableEq

/-- `executionStarted` is always false and is left out. -/
structure RoutingMismatchAssertion where
  keyId : String
  identityKey : String
  requestId : String
  receivedRegionId : String
  receivedEpoch : Nat
  expectedRegionId : String
  expectedEpoch : Nat
  issuedAt : Int
  expiresAt : Int
  nonce : String
deriving DecidableEq

inductive SignedRoutingPayload
  | request (assertion : RoutingAssertion)
  | mismatch (assertion : RoutingMismatchAssertion)
deriving DecidableEq

structure HttpRequest where
  method : String
  path : String
  requestId : String
  body : String

structure CellConfig where
  regionId : String
  audience : String
  activeKeyId : String
  previousKeyIds : List String
  clockSkewSeconds : Int

structure GatewayConfig where
  activeKeyId : String
  previousKeyIds : List String
  assertionTtlSeconds : Int
  clockSkewSeconds : Int

/-- The replay store of a cell and the last reading of its clock, in milliseconds. -/
structure CellState where
  claims : List (String × Int)
  clock : Int

structure Shared where
  /-- Every payload that was signed. -/
  signed : List SignedRoutingPayload
  cells : List CellState
  /-- The assertions whose nonce a cell has claimed. -/
  claimed : List (Nat × RoutingAssertion)
  /-- The assertions a cell has run its handlers for, with the requests they ran on. -/
  executions : List (Nat × RoutingAssertion × HttpRequest)
  /-- The assertions a cell has answered by a signed mismatch. -/
  mismatches : List (Nat × RoutingAssertion)

inductive Origin
  | client (identityKey : String) (request : HttpRequest)
  | captured (cell : Nat) (payload : SignedRoutingPayload) (request : HttpRequest)

inductive CellPhase
  | arrived
  | verified (assertion : RoutingAssertion)
  | validated (assertion : RoutingAssertion)
  | claimed (assertion : RoutingAssertion)
  | executed (assertion : RoutingAssertion)
  | mismatched (assertion : RoutingAssertion) (answer : RoutingMismatchAssertion)
  | rejected

inductive Phase
  | routing (attempt : Nat)
  | atCell (attempt cell : Nat) (payload : SignedRoutingPayload) (request : HttpRequest)
      (phase : CellPhase)
  | done

/-- `dispatched` lists the dispatches of a client request, the last one first. -/
structure Call where
  origin : Origin
  phase : Phase
  dispatched : List (Nat × RoutingAssertion)

/-- What the surroundings contribute: a clock reading, random bytes, the placement a lookup
returns, the cell it resolves to, and whether the call at hand throws. -/
structure Choice where
  clock : Int
  nonce : String
  placement : Option AuthFnIdentityPlacement
  cell : Nat
  fails : Bool

def seconds (clock : Int) : Int := clock / 1000

section Payloads

def keyId : SignedRoutingPayload → String
  | .request a => a.keyId
  | .mismatch m => m.keyId

def issuedAt : SignedRoutingPayload → Int
  | .request a => a.issuedAt
  | .mismatch m => m.issuedAt

def expiresAt : SignedRoutingPayload → Int
  | .request a => a.expiresAt
  | .mismatch m => m.expiresAt

def nonce : SignedRoutingPayload → String
  | .request a => a.nonce
  | .mismatch m => m.nonce

def isSignedRoutingPayload (payload : SignedRoutingPayload) : Bool :=
  16 ≤ (nonce payload).length && issuedAt payload ≤ expiresAt payload &&
    expiresAt payload - issuedAt payload ≤ 300 &&
    match payload with
    | .request a => 1 ≤ a.epoch
    | .mismatch _ => true

/-- The signature of a payload verifies only if the payload was signed. -/
def verifyPayload (signed : List SignedRoutingPayload) (keyIds : List String)
    (clock skew : Int) (payload : SignedRoutingPayload) : Bool :=
  isSignedRoutingPayload payload && keyId payload ∈ keyIds && payload ∈ signed &&
    issuedAt payload ≤ seconds clock + skew && seconds clock - skew ≤ expiresAt payload

end Payloads

section Replay

/-- `claim` of the in-memory replay store: expired claims are dropped, then the nonce is looked
for. -/
def claim (claims : List (String × Int)) (clock : Int) (nonce : String) (expiresAt : Int) :
    List (String × Int) × Bool :=
  let kept := claims.filter fun c => !(c.2 < seconds clock)
  if kept.any fun c => c.1 = nonce then (kept, false) else (kept ++ [(nonce, expiresAt)], true)

end Replay

section Cell

variable (digest : String → String)

def requestBodyDigest (request : HttpRequest) : String :=
  if request.method = "GET" ∨ request.method = "HEAD" then digest "" else digest request.body

def validateRequestAssertion (assertion : RoutingAssertion) (request : HttpRequest)
    (audience : String) : Bool :=
  assertion.audience = audience ∧ assertion.requestId = request.requestId ∧
    assertion.method = request.method ∧ assertion.path = request.path ∧
    assertion.bodySha256 = requestBodyDigest digest request

def createMismatchAssertion (assertion : RoutingAssertion) (placement : AuthFnIdentityPlacement)
    (activeKeyId : String) (clock : Int) (nonce : String) : RoutingMismatchAssertion where
  keyId := activeKeyId
  identityKey := assertion.identityKey
  requestId := assertion.requestId
  receivedRegionId := assertion.regionId
  receivedEpoch := assertion.epoch
  expectedRegionId := placement.regionId
  expectedEpoch := placement.epoch
  issuedAt := seconds clock
  expiresAt := seconds clock + 20
  nonce := nonce

/-- The middleware of a cell, one await at a time. The clock of its process never goes back. -/
def cellStep (config : CellConfig) (cell : Nat) (state : CellState) (s : Shared)
    (choice : Choice) (payload : SignedRoutingPayload) (request : HttpRequest)
    (phase : CellPhase) : Option (Shared × CellPhase) :=
  let ticked := { s with cells := s.cells.set cell { state with clock := choice.clock } }
  if choice.clock < state.clock then none
  else match phase with
    | .arrived =>
      if verifyPayload s.signed (config.activeKeyId :: config.previousKeyIds) choice.clock
          config.clockSkewSeconds payload then
        match payload with
        | .request assertion => some (ticked, .verified assertion)
        | .mismatch _ => some (ticked, .rejected)
      else some (ticked, .rejected)
    | .verified assertion =>
      if validateRequestAssertion digest assertion request config.audience then
        some (ticked, .validated assertion)
      else some (ticked, .rejected)
    | .validated assertion =>
      let result := claim state.claims choice.clock assertion.nonce
        (assertion.expiresAt + config.clockSkewSeconds)
      let stored := { s with cells := s.cells.set cell ⟨result.1, choice.clock⟩ }
      if result.2 then
        some ({ stored with claimed := (cell, assertion) :: s.claimed }, .claimed assertion)
      else some (stored, .rejected)
    | .claimed assertion =>
      if choice.fails then some (ticked, .rejected)
      else match choice.placement with
        | none => some (ticked, .rejected)
        | some placement =>
          if placement.state ≠ .active then some (ticked, .rejected)
          else if placement.regionId ≠ config.regionId ∨ assertion.regionId ≠ config.regionId ∨
              assertion.epoch ≠ placement.epoch then
            let answer := createMismatchAssertion assertion placement config.activeKeyId
              choice.clock choice.nonce
            some ({ ticked with
                signed := .mismatch answer :: s.signed
                mismatches := (cell, assertion) :: s.mismatches }, .mismatched assertion answer)
          else some ({ ticked with executions := (cell, assertion, request) :: s.executions },
            .executed assertion)
    | _ => none

end Cell

section Gateway

variable (digest : String → String) (gateway : GatewayConfig) (cells : List CellConfig)

/-- The assertion of one dispatch. -/
def routingAssertion (identityKey : String) (request : HttpRequest) (choice : Choice)
    (placement : AuthFnIdentityPlacement) (audience : String) : RoutingAssertion where
  keyId := gateway.activeKeyId
  identityKey := identityKey
  regionId := placement.regionId
  epoch := placement.epoch
  requestId := request.requestId
  method := request.method
  path := request.path
  audience := audience
  issuedAt := seconds choice.clock
  expiresAt := seconds choice.clock + gateway.assertionTtlSeconds
  nonce := choice.nonce
  bodySha256 := requestBodyDigest digest request

/-- The gateway has a placement, from its cache or the directory, and dispatches to its cell. -/
def forward (s : Shared) (choice : Choice) (call : Call) (identityKey : String)
    (request : HttpRequest) (attempt : Nat) : Option (Shared × Call) :=
  match choice.placement, cells[choice.cell]? with
  | some placement, some config =>
    if placement.state = .active ∧ config.regionId = placement.regionId then
      let assertion :=
        routingAssertion digest gateway identityKey request choice placement config.audience
      some ({ s with signed := .request assertion :: s.signed },
        { call with
          phase := .atCell attempt choice.cell (.request assertion) request .arrived
          dispatched := (choice.cell, assertion) :: call.dispatched })
    else some (s, { call with phase := .done })
  | _, _ => some (s, { call with phase := .done })

/-- The mismatch is about the dispatch that it answers. -/
def answersDispatch (answer : RoutingMismatchAssertion) (identityKey : String)
    (request : HttpRequest) (assertion : RoutingAssertion) : Bool :=
  answer.identityKey = identityKey ∧ answer.requestId = request.requestId ∧
    answer.receivedRegionId = assertion.regionId ∧ answer.receivedEpoch = assertion.epoch

/-- The response of a cell at the gateway; `fails` loses it on the way. -/
def respond (s : Shared) (choice : Choice) (call : Call) (attempt : Nat) (phase : CellPhase) :
    Option (Shared × Call) :=
  match call.origin, phase with
  | .client identityKey request, .mismatched assertion answer =>
    if attempt = 0 ∧ !choice.fails ∧
        verifyPayload s.signed (gateway.activeKeyId :: gateway.previousKeyIds) choice.clock
          gateway.clockSkewSeconds (.mismatch answer) ∧
        answersDispatch answer identityKey request assertion then
      some (s, { call with phase := .routing 1 })
    else some (s, { call with phase := .done })
  | _, _ => some (s, { call with phase := .done })

def finalPhase : CellPhase → Bool
  | .executed _ => true
  | .mismatched _ _ => true
  | .rejected => true
  | _ => false

def step (s : Shared) (_ : Nat) (call : Call) (choice : Choice) : Option (Shared × Call) :=
  match call.phase with
  | .routing attempt =>
    match call.origin with
    | .client identityKey request =>
      forward digest gateway cells s choice call identityKey request attempt
    | .captured cell payload request =>
      some (s, { call with phase := .atCell attempt cell payload request .arrived })
  | .atCell attempt cell payload request phase =>
    if finalPhase phase then respond gateway s choice call attempt phase
    else
      match cells[cell]?, s.cells[cell]? with
      | some config, some state =>
        (cellStep digest config cell state s choice payload request phase).map fun r =>
          (r.1, { call with phase := .atCell attempt cell payload request r.2 })
      | _, _ => none
  | .done => none

def newCall (origin : Origin) : Call := ⟨origin, .routing 0, []⟩

abbrev Deployment := System Shared Call

def deploymentStep : Deployment → Act Origin Choice → Option Deployment :=
  act newCall (step digest gateway cells)

/-- Cells whose replay stores are empty; their clocks have not been read yet. -/
def start (clock : Int) : Deployment :=
  ⟨⟨[], cells.map fun _ => ⟨[], clock⟩, [], [], []⟩, []⟩

end Gateway

end SuperFunctions.Authfn.Routing
