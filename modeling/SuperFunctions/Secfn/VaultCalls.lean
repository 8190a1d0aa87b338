import SuperFunctions.Secfn.VaultScopes

/-!
# Calls on secrets

The calls that create, rename, rotate, revoke, delete and read secrets, one access to the store
at a time. A transaction is one access. The calls run side by side, and a call that is never
moved again has failed where it stands. The number of a call is the id that it generates.
-/
namespace SuperFunctions.Secfn.VaultCalls

open Lib.Processes Vault VaultScopes

inductive Call where
  | createSecret (scope : Scope) (key value : String)
  | updateSecret (id : Nat) (key : Option String) (confirmed : Bool)
  | rotateSecret (id : Nat) (value : String)
  | revokeSecret (id : Nat)
  | deleteSecret (id : Nat)
  | readRuntimeSecret (key : String) (token : ServiceToken) (scope : Scope)

/-- How far a call has got, with what it has read. -/
inductive Stage (P : Type) where
  | start
  | resolved (scope : ResolvedScope)
  | found (secret : Secret)
  | cleared
  | built (secret : Secret) (version : SecretVersion P)
  | committed
  | marked
  | unlisted
  | unversioned
  | located (scope : ResolvedScope) (secret : Secret)
  | hydrated (secret : Secret)
  | answered (secretId version : Nat) (value : String)
  | finished
  | failed (refusal : Refusal)

structure Proc (P : Type) where
  call : Call
  stage : Stage P

section Steps

variable {P : Type} (host : Host P)

def createVersion (id : Nat) (s : Secret) (value : String) : SecretVersion P where
  id
  secretId := s.id
  version := s.currentVersion
  encryptedPayload := host.encryptSecret value (secretAad s s.currentVersion)

def newSecret (id : Nat) (r : ResolvedScope) (e : Environment) (key : String) : Secret where
  id
  tenantId := r.tenantId
  namespaceId := r.«namespace».id
  «namespace» := some r.«namespace».slug
  key
  environmentId := e.id
  environment := some e.name
  currentVersion := 1
  revoked := false

/-- A write that is refused ends the call and leaves the store as it was. -/
def written (v : Tables P) (result : Except Refusal (Tables P)) (stage : Stage P) :
    Tables P × Stage P :=
  match result with
  | .ok v' => (v', stage)
  | .error refusal => (v, .failed refusal)

def createSecret (v : Tables P) (i : Nat) (scope : Scope) (key value : String) :
    Stage P → Option (Tables P × Stage P)
  | .start =>
    if host.trim key = "" then some (v, .failed (.validation "Secret key is required"))
    else match resolveScope host v scope false true with
      | (v', .error refusal) => some (v', .failed refusal)
      | (v', .ok r) => some (v', .resolved r)
  | .resolved r =>
    r.environment.map fun e =>
      match findSecretByKey v key r.tenantId r.«namespace».id e.id with
      | some _ => (v, .failed (.validation "Secret already exists"))
      | none =>
        let s := newSecret i r e key
        (v, .built s (createVersion host i s value))
  | .built s r => some (written v (insertSecret v s r) .committed)
  | _ => none

def updateSecret (v : Tables P) (id : Nat) (key : Option String) (confirmed : Bool) :
    Stage P → Option (Tables P × Stage P)
  | .start =>
    match getSecretRow v id with
    | .error refusal => some (v, .failed refusal)
    | .ok existing =>
      match key.map host.trim with
      | none => some (v, .finished)
      | some key =>
        if key = "" then some (v, .failed (.validation "Secret key is required"))
        else if key = existing.key then some (v, .finished)
        else if confirmed = false then
          some (v, .failed (.validation "Secret rename requires confirmation"))
        else some (v, .found existing)
  | .found existing =>
    match findSecretByKey v (host.trim (key.getD "")) existing.tenantId existing.namespaceId
      existing.environmentId with
    | some duplicate =>
      if duplicate.id ≠ id ∧ duplicate.revoked = false then
        some (v, .failed (.validation "Secret already exists"))
      else some (v, .cleared)
    | none => some (v, .cleared)
  | .cleared =>
    some (written v (updateSecretRow v id fun s => { s with key := host.trim (key.getD "") })
      .finished)
  | _ => none

def rotateSecret (v : Tables P) (i id : Nat) (value : String) :
    Stage P → Option (Tables P × Stage P)
  | .start =>
    match getSecretRow v id with
    | .error refusal => some (v, .failed refusal)
    | .ok s =>
      let next := { s with currentVersion := s.currentVersion + 1 }
      some (v, .built next (createVersion host i next value))
  | .built _ r => some (written v (insertVersion v id r) .committed)
  | _ => none

def revokeSecret (v : Tables P) (id : Nat) : Stage P → Option (Tables P × Stage P)
  | .start =>
    match getSecretRow v id with
    | .error refusal => some (v, .failed refusal)
    | .ok s => some (v, .found s)
  | .found _ =>
    some (written v (updateSecretRow v id fun s => { s with revoked := true }) .finished)
  | _ => none

/-- Revoke first: a failed cleanup remains inaccessible. -/
def deleteSecret (v : Tables P) (id : Nat) : Stage P → Option (Tables P × Stage P)
  | .start =>
    match getSecretRow v id with
    | .error refusal => some (v, .failed refusal)
    | .ok s => some (v, .found s)
  | .found _ => some (written v (updateSecretRow v id fun s => { s with revoked := true }) .marked)
  | .marked => some (deleteMembersOf v id, .unlisted)
  | .unlisted => some (deleteVersionsOf v id, .unversioned)
  | .unversioned => some (deleteSecretRow v id, .finished)
  | _ => none

def readRuntimeSecretStep (v : Tables P) (key : String) (token : ServiceToken) (scope : Scope) :
    Stage P → Option (Tables P × Stage P)
  | .start =>
    if hasScope token.scopes "secret" key = false then
      some (v, .failed (.forbidden "Runtime token cannot read this secret"))
    else match resolveScope host v scope false true with
      | (v', .error refusal) => some (v', .failed refusal)
      | (v', .ok r) => some (v', .resolved r)
  | .resolved r =>
    r.environment.map fun e =>
      match findSecretByKey v key r.tenantId r.«namespace».id e.id with
      | some s =>
        if s.revoked then (v, .failed (.notFound "Secret not found")) else (v, .located r s)
      | none => (v, .failed (.notFound "Secret not found"))
  | .located r s =>
    let s := hydrateSecret v s
    if inRuntimeScope token r s then some (v, .hydrated s)
    else some (v, .failed (.forbidden "Runtime token secret scope mismatch"))
  | .hydrated s =>
    match getSecretVersion v s.id s.currentVersion with
    | .error refusal => some (v, .failed refusal)
    | .ok row =>
      match host.decryptSecret row.encryptedPayload (secretAad s row.version) with
      | none => some (v, .failed .decryption)
      | some value => some (v, .answered s.id row.version value)
  | _ => none

def stageStep (v : Tables P) (i : Nat) : Call → Stage P → Option (Tables P × Stage P)
  | .createSecret scope key value => createSecret host v i scope key value
  | .updateSecret id key confirmed => updateSecret host v id key confirmed
  | .rotateSecret id value => rotateSecret host v i id value
  | .revokeSecret id => revokeSecret v id
  | .deleteSecret id => deleteSecret v id
  | .readRuntimeSecret key token scope => readRuntimeSecretStep host v key token scope

/-- One access of a call. -/
def next (v : Tables P) (i : Nat) (p : Proc P) (_ : Unit) : Option (Tables P × Proc P) :=
  (stageStep host v i p.call p.stage).map fun r => (r.1, { p with stage := r.2 })

def init (call : Call) : Proc P := ⟨call, .start⟩

abbrev VaultSystem (P : Type) := System (Tables P) (Proc P)

def step : VaultSystem P → Act Call Unit → Option (VaultSystem P) := act init (next host)

def initial : VaultSystem P := ⟨Tables.empty, []⟩

/-! ## Reading without interruption -/

structure Response where
  secretId : Nat
  key : String
  value : String
  environment : Option String
  version : Nat
  deriving DecidableEq

/-- `decryptRuntimeSecret` -/
def decryptRuntimeSecret (v : Tables P) (s : Secret) : Except Refusal Response :=
  match getSecretVersion v s.id s.currentVersion with
  | .error refusal => .error refusal
  | .ok row =>
    match host.decryptSecret row.encryptedPayload (secretAad s row.version) with
    | none => .error .decryption
    | some value => .ok ⟨s.id, s.key, value, s.environment, row.version⟩

def readRuntimeSecret (v : Tables P) (key : String) (token : ServiceToken) (scope : Scope) :
    Tables P × Except Refusal Response :=
  if hasScope token.scopes "secret" key = false then
    (v, .error (.forbidden "Runtime token cannot read this secret"))
  else match resolveScope host v scope false true with
    | (v', .error refusal) => (v', .error refusal)
    | (v', .ok r) =>
      match r.environment.bind fun e =>
          findSecretByKey v' key r.tenantId r.«namespace».id e.id with
      | none => (v', .error (.notFound "Secret not found"))
      | some s =>
        if s.revoked then (v', .error (.notFound "Secret not found"))
        else
          let s := hydrateSecret v' s
          if inRuntimeScope token r s then (v', decryptRuntimeSecret host v' s)
          else (v', .error (.forbidden "Runtime token secret scope mismatch"))

end Steps

variable {P : Type} {host : Host P} {v v' : Tables P}

/-- What a call writes as a version: the secret and the value it was given. -/
def writes (i : Nat) : Call → Option (Nat × String)
  | .createSecret _ _ value => some (i, value)
  | .rotateSecret id value => some (id, value)
  | _ => none

/-- The call `i` has created the secret `i`. -/
def CreatedBy (procs : List (Proc P)) (i : Nat) : Prop :=
  ∃ scope key value, procs[i]? = some ⟨.createSecret scope key value, .committed⟩

theorem exists_of_any {σ : Type} {Q : σ → Prop} [DecidablePred Q] {r : Option σ}
    (h : r.any (fun s => Q s) = true) : ∃ s, r = some s ∧ Q s := by
  cases r with
  | none => cases h
  | some s => exact ⟨s, rfl, of_decide_eq_true h⟩

theorem next_committed {i : Nat} {call : Call} {choice : Unit} :
    next host v i ⟨call, .committed⟩ choice = none := by
  cases call <;> rfl

theorem getSecretRow_some {id : Nat} {s : Secret} (h : getSecretRow v id = .ok s) :
    s ∈ v.secrets ∧ s.id = id := by
  unfold getSecretRow at h
  split at h
  case h_1 found hfind =>
    cases h
    have hid := find?_satisfies hfind
    exact ⟨List.mem_of_find?_eq_some hfind, hid⟩
  case h_2 => cases h

end SuperFunctions.Secfn.VaultCalls
