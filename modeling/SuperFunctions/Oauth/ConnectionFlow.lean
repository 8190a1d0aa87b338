import SuperFunctions.Lib.OrderedMap
import SuperFunctions.Lib.Processes

/-!
# The OAuth connection flow

`start`, `handleCallback`, `refresh` and `disconnect` of the flow service, step by step: every step
is one call of the state store, the vault, the provider or a hook. The vault keeps one record for
each connection. Every token set that the provider answers has a serial number, so that what is
stored can be told from what came after it.
-/
namespace SuperFunctions.Oauth.ConnectionFlow

open Lib.OrderedMap Lib.Processes

/-! ## Records -/

inductive Subject where
  | connection (tenantId userId : String) (connectionId : Option String)
  | browserAuth (intentId : String)
deriving DecidableEq

/-- A state as `createAuthorizationRequest` puts it. -/
structure Flow where
  stateId : String
  providerId : String
  redirectUri : String
  subject : Subject
  expiresAt : Int
deriving DecidableEq

structure StateRow where
  flow : Flow
  consumed : Bool

structure TokenSet where
  accessToken : String
  refreshToken : Option String := none
  expiresAt : Option String := none
  scope : Option String := none
  tokenType : Option String := none
  idToken : Option String := none
deriving DecidableEq

/-- The vault's record, with the token set that its payload holds. -/
structure TokenRecord where
  tokenId : String
  tenantId : String
  userId : String
  providerId : String
  connectionId : String
  tokenSet : TokenSet
  keyRef : String
  createdAt : String
  updatedAt : String
deriving DecidableEq

/-- A record, the state whose callback it goes back to and the serial number of its token set. -/
structure Stored where
  record : TokenRecord
  flow : String
  serial : Nat
deriving DecidableEq

/-- What `resolveBrowserAuthIdentity` answers. -/
structure Identity where
  tenantId : String
  userId : String
  connectionId : Option String := none
  persistTokens : Bool := true

inductive Event where
  | answered (connectionId : String) (serial : Nat) (tokenSet : TokenSet)
  | stored (connectionId : String) (serial : Nat)
  | rewrote (connectionId : String) (serial : Nat)
  | deleted (connectionId : String)
deriving DecidableEq

/-- The stores, and what has happened: the last thing first. -/
structure Store where
  states : List StateRow
  pendingConnectionByState : OMap String String
  vault : OMap String Stored
  serials : Nat
  started : List Flow
  consumptions : List (String × Nat)
  exchanges : List (String × Nat)
  resolved : List (String × Identity)
  log : List Event
  failed : List String

def emptyStore : Store where
  states := []
  pendingConnectionByState := .empty
  vault := .empty
  serials := 0
  started := []
  consumptions := []
  exchanges := []
  resolved := []
  log := []
  failed := []

/-- `provider` tells the configured providers, and which of them have a revocation endpoint. -/
structure Config where
  provider : String → Option Bool
  keyRef : String
  storageSafe : Bool

/-! ## Calls -/

inductive Request where
  | start (flow : Flow)
  | handleCallback (providerId : Option String) (stateId redirectUri : String)
  | refresh (connectionId providerId : String)
  | disconnect (connectionId providerId : String) (revokeRemote : Bool)
  | deleteExpired (before : Int)

/-- What the world answers to a step: the clock, a failure, the provider's token endpoint, the
identity hook, a new token id. -/
structure Choice where
  now : Int := 0
  fails : Bool := false
  response : TokenSet := ⟨"", none, none, none, none, none⟩
  identity : Option Identity := none
  tokenId : String := ""
  timestamp : String := ""

inductive Phase where
  | entered
  /-- The state is put, the pending connection not. -/
  | registered (flow : Flow)
  | previewed (providerId : String)
  | consumed (flow : Flow)
  | exchanging (flow : Flow)
  | exchanged (flow : Flow) (tokenSet : TokenSet) (serial : Nat)
  | identifying (flow : Flow) (tokenSet : TokenSet) (serial : Nat)
  | persisting (record : Stored)
  | connecting (flow : String)
  | refreshing (existing : Stored)
  | rewriting (existing record : Stored)
  | revoking
  | deleting (revokeFailed : Bool)
  | disconnecting (revokeFailed : Bool)
  | done (ok : Bool)
deriving DecidableEq

structure Call where
  request : Request
  phase : Phase

def findState (store : Store) (stateId : String) : Option StateRow :=
  store.states.find? fun row => row.flow.stateId = stateId

/-- Neither `undefined` nor empty. -/
def truthy (value : Option String) : Bool := value.getD "" != ""

/-! ## `start` -/

/-- What the state store requires of a subject. -/
def Subject.named : Subject → Bool
  | .connection tenantId userId _ => tenantId != "" && userId != ""
  | .browserAuth intentId => intentId != ""

/-- A generated state id is not drawn twice. -/
def start (store : Store) (flow : Flow) (c : Choice) : Phase → Option (Store × Phase)
  | .entered =>
    if c.fails || !flow.subject.named then some (store, .done false)
    else if store.started.any fun other => other.stateId = flow.stateId then none
    else some ({ store with
      states := store.states ++ [⟨flow, false⟩], started := flow :: store.started },
      .registered flow)
  | .registered flow =>
    match flow.subject with
    | .connection _ _ (some connectionId) =>
      if connectionId = "" then some (store, .done true)
      else some ({ store with
        pendingConnectionByState := store.pendingConnectionByState.set flow.stateId connectionId },
        .done true)
    | _ => some (store, .done true)
  | _ => none

/-! ## `handleCallback` -/

/-- The connection of a state whose subject names none. -/
def ownConnection (stateId : String) (connectionId : Option String) : String :=
  connectionId.getD ("conn_" ++ stateId)

/-- `persistTokenSet`, up to the vault's `put`. -/
def persistTokenSet (config : Config) (c : Choice) (tenantId userId providerId connectionId : String)
    (flow : String) (tokenSet : TokenSet) (serial : Nat) : Option Stored :=
  if tenantId = "" ∨ userId = "" ∨ config.storageSafe = false then none
  else some ⟨⟨c.tokenId, tenantId, userId, providerId, connectionId, tokenSet, config.keyRef,
    c.timestamp, c.timestamp⟩, flow, serial⟩

def handleCallback (config : Config) (store : Store) (i : Nat) (providerId : Option String)
    (stateId redirectUri : String) (c : Choice) : Phase → Option (Store × Phase)
  | .entered =>
    match providerId.or ((findState store stateId).map (·.flow.providerId)) with
    | none => some (store, .done false)
    | some found => some (store, if found = "" then .done false else .previewed found)
  -- the core service's `handleCallback`: a state is consumed before it is compared
  | .previewed found =>
    if (config.provider found).isNone then some (store, .done false)
    else match findState store stateId with
    | none => some (store, .done false)
    | some row =>
      if row.consumed ∨ row.flow.expiresAt ≤ c.now then some (store, .done false)
      else some ({ store with
        states := store.states.map fun other =>
          if other.flow.stateId = stateId then { other with consumed := true } else other
        consumptions := (stateId, i) :: store.consumptions },
        if found ≠ row.flow.providerId ∨ redirectUri ≠ row.flow.redirectUri then .done false
        else .consumed row.flow)
  | .consumed flow =>
    if c.fails then some (store, .done false)
    else some ({ store with exchanges := (flow.stateId, i) :: store.exchanges }, .exchanging flow)
  | .exchanging flow =>
    if c.fails then some (store, .done false)
    else some ({ store with
      serials := store.serials + 1
      log := match flow.subject with
        | .connection _ _ connectionId =>
          .answered (ownConnection flow.stateId connectionId) store.serials c.response :: store.log
        | .browserAuth _ => store.log },
      .exchanged flow c.response store.serials)
  -- `requireState`, and for a connection what follows up to the vault
  | .exchanged flow tokenSet serial =>
    match findState store flow.stateId with
    | none => some (store, .done false)
    | some row =>
      match row.flow.subject with
      | .connection tenantId userId connectionId =>
        let target := (store.pendingConnectionByState.get flow.stateId).getD
          (ownConnection flow.stateId connectionId)
        some ({ store with
          pendingConnectionByState := store.pendingConnectionByState.delete flow.stateId },
          match persistTokenSet config c tenantId userId flow.providerId target flow.stateId tokenSet
            serial with
          | none => .done false
          | some record => .persisting record)
      | .browserAuth _ => some (store, .identifying flow tokenSet serial)
  | .identifying flow tokenSet serial =>
    if c.fails then some (store, .done false)
    else match c.identity with
    | none => some (store, .connecting flow.stateId)
    | some identity =>
      if identity.persistTokens = false then some (store, .connecting flow.stateId)
      else
        let target := ownConnection flow.stateId identity.connectionId
        match persistTokenSet config c identity.tenantId identity.userId flow.providerId target
          flow.stateId tokenSet serial with
        | none => some (store, .done false)
        | some record => some ({ store with
            resolved := (flow.stateId, identity) :: store.resolved
            log := .answered target serial tokenSet :: store.log }, .persisting record)
  | .persisting record =>
    some ({ store with
      vault := store.vault.set record.record.connectionId record
      log := .stored record.record.connectionId record.serial :: store.log },
      .connecting record.flow)
  | .connecting flow =>
    if c.fails then some ({ store with failed := flow :: store.failed }, .done false)
    else some (store, .done true)
  | _ => none

/-! ## `refresh` -/

def mergeRefreshTokenSet (existing response : TokenSet) : TokenSet where
  accessToken := response.accessToken
  refreshToken := response.refreshToken.or existing.refreshToken
  expiresAt := response.expiresAt.or existing.expiresAt
  scope := response.scope.or existing.scope
  tokenType := response.tokenType.or existing.tokenType
  idToken := response.idToken.or existing.idToken

def refresh (config : Config) (store : Store) (connectionId providerId : String) (c : Choice) :
    Phase → Option (Store × Phase)
  | .entered =>
    if (config.provider providerId).isNone then some (store, .done false)
    else match store.vault.get connectionId with
    | none => some (store, .done false)
    | some existing =>
      if existing.record.providerId ≠ providerId ∨
          truthy existing.record.tokenSet.refreshToken = false then
        some (store, .done false)
      else some (store, .refreshing existing)
  | .refreshing existing =>
    if c.fails then some (store, .done false)
    else
      let merged := mergeRefreshTokenSet existing.record.tokenSet c.response
      some ({ store with
        serials := store.serials + 1
        log := .answered existing.record.connectionId store.serials merged :: store.log },
        .rewriting existing
          ⟨{ existing.record with tokenSet := merged, updatedAt := c.timestamp }, existing.flow,
            store.serials⟩)
  -- `persistRefreshedTokenSet` writes whatever the vault holds by now
  | .rewriting _ record =>
    if config.storageSafe = false then some (store, .done false)
    else some ({ store with
      vault := store.vault.set record.record.connectionId record
      log := .rewrote record.record.connectionId record.serial :: store.log }, .done true)
  | _ => none

/-! ## `disconnect` -/

def disconnect (config : Config) (store : Store) (connectionId providerId : String)
    (revokeRemote : Bool) (c : Choice) : Phase → Option (Store × Phase)
  | .entered =>
    match config.provider providerId with
    | none => some (store, .done false)
    | some revocable =>
      match store.vault.get connectionId with
      | none => some (store, .deleting false)
      | some existing =>
        if existing.record.providerId ≠ providerId then some (store, .done false)
        else some (store, if revokeRemote && revocable then .revoking else .deleting false)
  -- a failed revocation is kept for later
  | .revoking => some (store, .deleting c.fails)
  | .deleting revokeFailed =>
    some ({ store with
      vault := store.vault.delete connectionId
      log := .deleted connectionId :: store.log }, .disconnecting revokeFailed)
  | .disconnecting revokeFailed => some (store, .done (!c.fails && !revokeFailed))
  | _ => none

def deleteExpired (store : Store) (before : Int) : Phase → Option (Store × Phase)
  | .entered => some ({ store with
      states := store.states.filter fun row => before ≤ row.flow.expiresAt }, .done true)
  | _ => none

/-! ## The service -/

def enter (request : Request) : Call := ⟨request, .entered⟩

def advance (config : Config) (store : Store) (i : Nat) (call : Call) (c : Choice) :
    Option (Store × Phase) :=
  match call.request with
  | .start flow => start store flow c call.phase
  | .handleCallback providerId stateId redirectUri =>
    handleCallback config store i providerId stateId redirectUri c call.phase
  | .refresh connectionId providerId => refresh config store connectionId providerId c call.phase
  | .disconnect connectionId providerId revokeRemote =>
    disconnect config store connectionId providerId revokeRemote c call.phase
  | .deleteExpired before => deleteExpired store before call.phase

def next (config : Config) (store : Store) (i : Nat) (call : Call) (c : Choice) :
    Option (Store × Call) :=
  (advance config store i call c).map fun r => (r.1, ⟨call.request, r.2⟩)

abbrev Service := System Store Call

def service : Service := ⟨emptyStore, []⟩

def step (config : Config) : Service → Act Request Choice → Option Service :=
  act enter (next config)

end SuperFunctions.Oauth.ConnectionFlow
