import Mathlib.Tactic.Common

/-!
# The vault

The records of the vault and the lookups that its calls share: namespaces and environments by id
or by name, the resolution of a requested scope, and secrets with their versions.
-/
namespace SuperFunctions.Secfn.Vault

/-! ## What the host provides -/

/-- What `buildSecretAad` ties a payload to. -/
structure SecretAad where
  tenantId : Option String
  namespaceId : Nat
  secretId : Nat
  version : Nat
  deriving DecidableEq

def slugChar (c : Char) : Bool :=
  ('a' ≤ c ∧ c ≤ 'z') ∨ ('0' ≤ c ∧ c ≤ '9') ∨ c = '_' ∨ c = '-'

/-- Text functions, the token hash, dates and authenticated encryption. A trimmed text is
trimmed, a text of slug characters is trimmed and in lower case, and a payload decrypts to what
was encrypted under the same associated data. -/
structure Host (P : Type) where
  trim : String → String
  toLowerCase : String → String
  hashToken : String → String
  parseDate : String → Option Int
  encryptSecret : String → SecretAad → P
  decryptSecret : P → SecretAad → Option String
  trim_trim : ∀ text, trim (trim text) = trim text
  trim_slug : ∀ text : String, (∀ c ∈ text.toList, slugChar c) → trim text = text
  lower_slug : ∀ text : String, (∀ c ∈ text.toList, slugChar c) → toLowerCase text = text
  roundTrip : ∀ value aad, decryptSecret (encryptSecret value aad) aad = some value

/-- Texts that are trimmed and in lower case already, and payloads that are sealed by pairing. -/
def plainHost : Host (String × SecretAad) where
  trim text := text
  toLowerCase text := text
  hashToken text := text
  parseDate _ := none
  encryptSecret value aad := (value, aad)
  decryptSecret payload aad := if payload.2 = aad then some payload.1 else none
  trim_trim _ := rfl
  trim_slug _ _ := rfl
  lower_slug _ _ := rfl
  roundTrip _ _ := if_pos rfl

/-- The errors with their messages, and a unique index that is violated. -/
inductive Refusal where
  | validation (message : String)
  | notFound (message : String)
  | forbidden (message : String)
  | conflict
  | decryption
  deriving DecidableEq

/-! ## Records -/

structure Namespace where
  id : Nat
  tenantId : Option String
  slug : String
  label : String
  deriving DecidableEq

/-- An environment without a namespace is global. -/
structure Environment where
  id : Nat
  tenantId : Option String
  namespaceId : Option Nat
  name : String
  deriving DecidableEq

structure Secret where
  id : Nat
  tenantId : Option String
  namespaceId : Nat
  «namespace» : Option String
  key : String
  environmentId : Nat
  environment : Option String
  currentVersion : Nat
  revoked : Bool
  deriving DecidableEq

structure SecretVersion (P : Type) where
  id : Nat
  secretId : Nat
  version : Nat
  encryptedPayload : P
  deriving DecidableEq

structure SecretSet where
  id : Nat
  tenantId : Option String
  namespaceId : Nat
  environmentId : Option Nat
  name : String
  deriving DecidableEq

structure SetMember where
  id : Nat
  setId : Nat
  secretId : Nat
  «alias» : Option String
  deriving DecidableEq

structure ServiceToken where
  id : Nat
  tokenHash : String
  tenantId : Option String
  «namespace» : Option String
  environment : Option String
  scopes : List String
  expiresAt : Option String
  revoked : Bool
  deriving DecidableEq

/-- The tables, each in the order of its insertions, and the next id. -/
structure Tables (P : Type) where
  namespaces : List Namespace
  environments : List Environment
  secrets : List Secret
  versions : List (SecretVersion P)
  sets : List SecretSet
  members : List SetMember
  tokens : List ServiceToken
  nextId : Nat
  deriving DecidableEq

def Tables.empty {P : Type} : Tables P := ⟨[], [], [], [], [], [], [], 0⟩

/-- `SecretScope`: what a caller asks for. An empty id counts as absent. -/
structure Scope where
  tenantId : Option String
  namespaceId : Option Nat
  «namespace» : Option String
  environmentId : Option Nat
  environment : Option String

def defaultNamespace : String := "default"
def defaultEnvironment : String := "development"

/-! ## Names -/

/-- A text that counts: neither missing nor empty. -/
def truthy (text : Option String) : Option String := text.filter (· ≠ "")

/-- Each run of other characters becomes one dash. -/
def dashes : Bool → List Char → List Char
  | _, [] => []
  | inRun, c :: cs =>
    if slugChar c then c :: dashes false cs
    else if inRun then dashes true cs
    else '-' :: dashes true cs

section Names

variable {P : Type} (host : Host P)

def normalizeSlug (value : String) : String :=
  let slug := dashes false (host.toLowerCase (host.trim value)).toList
  String.ofList (((slug.dropWhile (· = '-')).reverse.dropWhile (· = '-')).reverse)

def normalizeName (value : String) : String := host.trim value

def cleanString (value : Option String) : Option String :=
  truthy (value.map host.trim)

end Names

/-! ## Lookups -/

section Lookups

variable {P : Type} (host : Host P) (v : Tables P)

def getNamespace (id : Nat) : Except Refusal Namespace :=
  match v.namespaces.find? fun n => n.id = id with
  | some n => .ok n
  | none => .error (.notFound "Namespace not found")

def getEnvironment (id : Nat) : Except Refusal Environment :=
  match v.environments.find? fun e => e.id = id with
  | some e => .ok e
  | none => .error (.notFound "Environment not found")

/-- By slug, or else by label. -/
def findNamespace (tenantId : Option String) (name : Option String) : Option Namespace :=
  let value := normalizeSlug host (name.getD "")
  if value = "" then none
  else
    let rows := v.namespaces.filter fun n => truthy tenantId = none ∨ n.tenantId = tenantId
    (rows.find? fun n => n.slug = value).or (rows.find? fun n => some n.label = name)

/-- Among the first thousand rows of the tenant and the namespace. -/
def findEnvironment (tenantId : Option String) (namespaceId : Option Nat)
    (environment : Option String) : Option Environment :=
  let name := normalizeName host (environment.getD "")
  if name = "" then none
  else
    let rows := (v.environments.filter fun e =>
      (tenantId = none ∨ e.tenantId = tenantId) ∧
        (namespaceId = none ∨ e.namespaceId = namespaceId)).take 1000
    rows.find? fun e => e.name = name ∧ e.namespaceId = namespaceId

/-- The first row in scope: a field that is absent from the scope is not compared. -/
def findSecretByKey (key : String) (tenantId : Option String) (namespaceId environmentId : Nat) :
    Option Secret :=
  v.secrets.find? fun s =>
    (tenantId = none ∨ s.tenantId = tenantId) ∧ s.namespaceId = namespaceId ∧
      s.environmentId = environmentId ∧ s.key = key

def getSecretRow (id : Nat) : Except Refusal Secret :=
  match v.secrets.find? fun s => s.id = id with
  | some s => .ok s
  | none => .error (.notFound "Secret not found")

def getSecretVersion (secretId version : Nat) : Except Refusal (SecretVersion P) :=
  match v.versions.find? fun r => r.secretId = secretId ∧ r.version = version with
  | some r => .ok r
  | none => .error (.notFound "Secret version not found")

def secretAad (s : Secret) (version : Nat) : SecretAad :=
  ⟨s.tenantId, s.namespaceId, s.id, version⟩

/-- `hydrateSecret`: the names of the namespace and the environment as they are now. -/
def hydrateSecret (s : Secret) : Secret :=
  { s with
    «namespace» :=
      match getNamespace v s.namespaceId with
      | .ok n => some n.slug
      | .error _ => s.«namespace»
    environment :=
      match getEnvironment v s.environmentId with
      | .ok e => some e.name
      | .error _ => s.environment }

end Lookups

/-! ## Creating namespaces and environments -/

section Directory

variable {P : Type} (host : Host P)

/-- Rows with an absent tenant are distinct to the index. -/
def insertNamespace (v : Tables P) (tenantId : Option String) (slug label : String) :
    Except Refusal (Tables P × Namespace) :=
  if tenantId ≠ none ∧ ∃ n ∈ v.namespaces, n.tenantId = tenantId ∧ n.slug = slug then
    .error .conflict
  else
    let n : Namespace := ⟨v.nextId, tenantId, slug, label⟩
    .ok ({ v with namespaces := v.namespaces ++ [n], nextId := v.nextId + 1 }, n)

def createNamespace (v : Tables P) (tenantId : Option String) (slug : String)
    (label : Option String) : Except Refusal (Tables P × Namespace) :=
  let slug := normalizeSlug host slug
  if slug = "" then .error (.validation "Namespace slug is required")
  else if (findNamespace host v tenantId (some slug)).isSome then
    .error (.validation "Namespace already exists")
  else insertNamespace v tenantId slug ((cleanString host label).getD slug)

def ensureNamespace (v : Tables P) (tenantId : Option String) (namespaceId : Option Nat)
    (name : Option String) (create : Bool) : Except Refusal (Tables P × Namespace) :=
  match namespaceId with
  | some id => do
    let n ← getNamespace v id
    if tenantId ≠ none ∧ n.tenantId ≠ tenantId then .error (.notFound "Namespace not found")
    else if name ≠ none ∧ normalizeSlug host (name.getD "") ≠ n.slug then
      .error (.validation "Namespace ID/name mismatch")
    else .ok (v, n)
  | none =>
    match (truthy name).bind fun name => findNamespace host v tenantId (some name) with
    | some n => .ok (v, n)
    | none =>
      if create = false ∧ (truthy name).isSome then .error (.notFound "Namespace not found")
      else
        let slug := name.getD defaultNamespace
        createNamespace host v tenantId slug (some slug)

/-- Rows with an absent tenant or namespace are distinct to the index. -/
def insertEnvironment (v : Tables P) (tenantId : Option String) (namespaceId : Option Nat)
    (name : String) : Except Refusal (Tables P × Environment) :=
  if tenantId ≠ none ∧ namespaceId ≠ none ∧ ∃ e ∈ v.environments,
      e.tenantId = tenantId ∧ e.namespaceId = namespaceId ∧ e.name = name then .error .conflict
  else
    let e : Environment := ⟨v.nextId, tenantId, namespaceId, name⟩
    .ok ({ v with environments := v.environments ++ [e], nextId := v.nextId + 1 }, e)

/-- An environment whose namespace is resolved. -/
def addEnvironment (v : Tables P) (tenantId : Option String) (namespaceId : Option Nat)
    (name : String) : Except Refusal (Tables P × Environment) :=
  let name := normalizeName host name
  if name = "" then .error (.validation "Environment name is required")
  else if (findEnvironment host v tenantId namespaceId (some name)).isSome then
    .error (.validation "Environment already exists")
  else insertEnvironment v tenantId namespaceId name

/-- A namespace created on the way stays when the environment is refused. -/
def createEnvironment (v : Tables P) (tenantId : Option String) (namespaceId : Option Nat)
    (namespaceName : Option String) (name : String) : Tables P × Except Refusal Environment :=
  if normalizeName host name = "" then (v, .error (.validation "Environment name is required"))
  else if namespaceId.isSome ∨ (truthy namespaceName).isSome then
    match ensureNamespace host v tenantId namespaceId namespaceName true with
    | .error refusal => (v, .error refusal)
    | .ok (v, n) =>
      match addEnvironment host v (tenantId.or n.tenantId) (some n.id) name with
      | .error refusal => (v, .error refusal)
      | .ok (v, e) => (v, .ok e)
  else
    match addEnvironment host v tenantId none name with
    | .error refusal => (v, .error refusal)
    | .ok (v, e) => (v, .ok e)

def ensureEnvironment (v : Tables P) (tenantId : Option String)
    (namespaceId environmentId : Option Nat) (environment : Option String) (create : Bool) :
    Except Refusal (Tables P × Environment) :=
  match environmentId with
  | some id => do
    let e ← getEnvironment v id
    if (tenantId ≠ none ∧ e.tenantId ≠ tenantId) ∨
        (e.namespaceId ≠ none ∧ e.namespaceId ≠ namespaceId) then
      .error (.notFound "Environment not found")
    else if environment ≠ none ∧ normalizeName host (environment.getD "") ≠ e.name then
      .error (.validation "Environment ID/name mismatch")
    else .ok (v, e)
  | none =>
    let found := (truthy environment).bind fun name =>
      (findEnvironment host v tenantId namespaceId (some name)).or
        (findEnvironment host v tenantId none (some name))
    match found with
    | some e => .ok (v, e)
    | none =>
      if create = false ∧ (truthy environment).isSome then
        .error (.notFound "Environment not found")
      else addEnvironment host v tenantId none (environment.getD defaultEnvironment)

/-! ## Scopes -/

/-- The environment of an id fills in what the scope leaves open. -/
def applyEnvironment (scope : Scope) (e : Environment) : Except Refusal Scope :=
  if scope.tenantId ≠ none ∧ e.tenantId ≠ scope.tenantId then
    .error (.notFound "Environment not found")
  else if scope.environment ≠ none ∧ normalizeName host (scope.environment.getD "") ≠ e.name then
    .error (.validation "Environment ID/name mismatch")
  else .ok
    { scope with
      namespaceId :=
        if scope.namespaceId = none ∧ truthy scope.«namespace» = none then e.namespaceId
        else scope.namespaceId
      tenantId := scope.tenantId.or e.tenantId
      environment := some e.name }

/-- The namespace of an id; the scope is compared as it was requested. -/
def applyNamespace (scope result : Scope) (n : Namespace) : Except Refusal Scope :=
  if scope.tenantId ≠ none ∧ n.tenantId ≠ scope.tenantId then
    .error (.notFound "Namespace not found")
  else if scope.«namespace» ≠ none ∧ normalizeSlug host (scope.«namespace».getD "") ≠ n.slug then
    .error (.validation "Namespace ID/name mismatch")
  else .ok { result with tenantId := result.tenantId.or n.tenantId, «namespace» := some n.slug }

/-- Resolve ids and reject contradictory names. -/
def validateScopeRepresentations (v : Tables P) (scope : Scope) : Except Refusal Scope := do
  let environment ← scope.environmentId.mapM (getEnvironment v)
  let result ← environment.elim (.ok scope) (applyEnvironment host scope)
  let found ← result.namespaceId.mapM (getNamespace v)
  let result ← found.elim (.ok result) (applyNamespace host scope result)
  match environment.bind Environment.namespaceId with
  | none => .ok result
  | some parentId =>
    let parent := found.or ((truthy result.«namespace»).bind fun name =>
      findNamespace host v result.tenantId (some name))
    if parent.map Namespace.id ≠ some parentId then
      .error (.validation "Environment namespace mismatch")
    else .ok result

/-- A scope with its records: the environment is missing only when it was to be ignored. -/
structure ResolvedScope where
  tenantId : Option String
  «namespace» : Namespace
  environment : Option Environment

/-- `resolveScope` as secrets and sets call it: the namespace is required, with its default, and
so is the environment unless it is ignored. What was created stays when the rest is refused. -/
def resolveScope (v : Tables P) (scope : Scope) (ignoreEnvironment requireEnvironment : Bool) :
    Tables P × Except Refusal ResolvedScope :=
  match validateScopeRepresentations host v scope with
  | .error refusal => (v, .error refusal)
  | .ok scope =>
    match ensureNamespace host v scope.tenantId scope.namespaceId
      (scope.«namespace».or (if scope.namespaceId = none then some defaultNamespace else none))
      true with
    | .error refusal => (v, .error refusal)
    | .ok (v, n) =>
      if ignoreEnvironment then (v, .ok ⟨scope.tenantId, n, none⟩)
      else
        match ensureEnvironment host v scope.tenantId (some n.id) scope.environmentId
          (scope.environment.or (if requireEnvironment = true ∧ scope.environmentId = none then
            some defaultEnvironment else none)) true with
        | .error refusal => (v, .error refusal)
        | .ok (v, e) => (v, .ok ⟨scope.tenantId, n, some e⟩)

end Directory

/-! ## Secrets and versions -/

section Writes

variable {P : Type} (v : Tables P)

/-- The unique index of secrets: rows with an absent tenant are distinct. -/
def keyTaken (s : Secret) : Bool :=
  s.tenantId ≠ none ∧ ∃ other ∈ v.secrets, other.id ≠ s.id ∧ other.tenantId = s.tenantId ∧
    other.namespaceId = s.namespaceId ∧ other.environmentId = s.environmentId ∧ other.key = s.key

def versionTaken (secretId version : Nat) : Bool :=
  ∃ r ∈ v.versions, r.secretId = secretId ∧ r.version = version

/-- The transaction of `createSecret`. -/
def insertSecret (s : Secret) (r : SecretVersion P) : Except Refusal (Tables P) :=
  if keyTaken v s = true ∨ versionTaken v r.secretId r.version = true then .error .conflict
  else .ok { v with secrets := v.secrets ++ [s], versions := v.versions ++ [r] }

/-- `db.update` by id: no row is no success, and the index is checked. -/
def updateSecretRow (id : Nat) (change : Secret → Secret) : Except Refusal (Tables P) :=
  match v.secrets.find? fun s => s.id = id with
  | none => .error (.notFound "Secret not found")
  | some s =>
    if keyTaken v (change s) = true then .error .conflict
    else .ok
      { v with secrets := v.secrets.map fun other => if other.id = id then change other else other }

/-- The transaction of `rotateSecret`. -/
def insertVersion (id : Nat) (r : SecretVersion P) : Except Refusal (Tables P) :=
  if versionTaken v r.secretId r.version = true then .error .conflict
  else updateSecretRow { v with versions := v.versions ++ [r] } id
    fun s => { s with currentVersion := r.version }

def deleteMembersOf (secretId : Nat) : Tables P :=
  { v with members := v.members.filter fun m => m.secretId ≠ secretId }

def deleteVersionsOf (secretId : Nat) : Tables P :=
  { v with versions := v.versions.filter fun r => r.secretId ≠ secretId }

def deleteSecretRow (id : Nat) : Tables P :=
  { v with secrets := v.secrets.filter fun s => s.id ≠ id }

end Writes

/-- `hasScope` -/
def hasScope (scopes : List String) (kind name : String) : Bool :=
  "*" ∈ scopes ∨ (kind ++ ":*") ∈ scopes ∨ (kind ++ ":" ++ name) ∈ scopes

/-- `assertRuntimeScope` on a hydrated secret, with the namespace as it was resolved. -/
def inRuntimeScope (token : ServiceToken) (resolved : ResolvedScope) (s : Secret) : Bool :=
  (truthy token.tenantId = none ∨ token.tenantId = s.tenantId) ∧
    (truthy token.«namespace» = none ∨ token.«namespace» = some resolved.«namespace».slug) ∧
    (truthy token.environment = none ∨ token.environment = s.environment) ∧
    (truthy resolved.tenantId = none ∨ resolved.tenantId = s.tenantId) ∧
    resolved.«namespace».id = s.namespaceId ∧
    (truthy (resolved.environment.map Environment.name) = none ∨
      resolved.environment.map Environment.name = s.environment)

end SuperFunctions.Secfn.Vault
