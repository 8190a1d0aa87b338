import SuperFunctions.Secfn.VaultCalls

/-!
# The vault service

Every operation of the vault as one piece: namespaces and environments with their new names, the
calls on secrets, sets with their members, service tokens, and the two reads of the runtime.
-/
namespace SuperFunctions.Secfn.VaultService

open Vault
open VaultCalls (Call Stage stageStep decryptRuntimeSecret)

section Operations

variable {P : Type} (host : Host P)

/-! ## Namespaces and environments -/

def updateNamespaceRow (v : Tables P) (id : Nat) (change : Namespace → Namespace) :
    Except Refusal (Tables P) := do
  let existing ← getNamespace v id
  let next := change existing
  if next.tenantId ≠ none ∧ ∃ n ∈ v.namespaces, n.id ≠ id ∧ n.tenantId = next.tenantId ∧
      n.slug = next.slug then .error .conflict
  else
    .ok { v with namespaces := v.namespaces.map fun n => if n.id = id then change n else n }

def renamedSlug (v : Tables P) (existing : Namespace) (slug : String) : Except Refusal String :=
  let slug := normalizeSlug host slug
  if slug = "" then .error (.validation "Namespace slug is required")
  else
    match findNamespace host v existing.tenantId (some slug) with
    | some duplicate =>
      if duplicate.id ≠ existing.id then .error (.validation "Namespace slug already exists")
      else .ok slug
    | none => .ok slug

/-- A label that is empty leaves the old one. -/
def renamedNamespace (slug label : Option String) (n : Namespace) : Namespace :=
  { n with
    slug := slug.getD n.slug
    label := (label.bind fun text => cleanString host (some text)).getD n.label }

def updateNamespace (v : Tables P) (id : Nat) (slug label : Option String) :
    Except Refusal (Tables P) := do
  let existing ← getNamespace v id
  let slug ← slug.mapM (renamedSlug host v existing)
  updateNamespaceRow v id (renamedNamespace host slug label)

def updateEnvironmentRow (v : Tables P) (id : Nat) (change : Environment → Environment) :
    Except Refusal (Tables P) := do
  let existing ← getEnvironment v id
  let next := change existing
  if next.tenantId ≠ none ∧ next.namespaceId ≠ none ∧ ∃ e ∈ v.environments, e.id ≠ id ∧
      e.tenantId = next.tenantId ∧ e.namespaceId = next.namespaceId ∧ e.name = next.name then
    .error .conflict
  else
    .ok { v with environments := v.environments.map fun e => if e.id = id then change e else e }

def renamedEnvironment (name : String) (e : Environment) : Environment := { e with name }

def updateEnvironment (v : Tables P) (id : Nat) (name : Option String) :
    Except Refusal (Tables P) := do
  let existing ← getEnvironment v id
  match name with
  | none => .ok v
  | some name =>
    let name := normalizeName host name
    if name = "" then .error (.validation "Environment name is required")
    else
      match findEnvironment host v existing.tenantId existing.namespaceId (some name) with
      | some duplicate =>
        if duplicate.id ≠ id then .error (.validation "Environment already exists")
        else updateEnvironmentRow v id (renamedEnvironment name)
      | none => updateEnvironmentRow v id (renamedEnvironment name)

/-! ## Calls on secrets -/

/-- A call that is not interrupted, for at most so many accesses. -/
def complete (i : Nat) (call : Call) : Nat → Tables P → Stage P → Tables P × Stage P
  | 0, v, stage => (v, stage)
  | fuel + 1, v, stage =>
    match stageStep host v i call stage with
    | none => (v, stage)
    | some (v', stage') => complete i call fuel v' stage'

/-- The longest call, a delete, has five accesses. -/
def runCall (v : Tables P) (call : Call) : Tables P × Stage P :=
  let r := complete host v.nextId call 5 v .start
  ({ r.1 with nextId := r.1.nextId + 1 }, r.2)

/-! ## Sets -/

def getSecretSetRow (v : Tables P) (id : Nat) : Except Refusal SecretSet :=
  match v.sets.find? fun s => s.id = id with
  | some s => .ok s
  | none => .error (.notFound "Secret set not found")

/-- The set of a name that is bound to just this environment, or to none. -/
def findSet (v : Tables P) (tenantId : Option String) (namespaceId : Nat) (name : String)
    (environmentId : Option Nat) : Option SecretSet :=
  v.sets.find? fun s =>
    (tenantId = none ∨ s.tenantId = tenantId) ∧ s.namespaceId = namespaceId ∧ s.name = name ∧
      s.environmentId = environmentId

def assertSetMemberScope (set : SecretSet) (s : Secret) : Except Refusal Unit :=
  if s.tenantId ≠ set.tenantId ∨ s.namespaceId ≠ set.namespaceId ∨
      (set.environmentId ≠ none ∧ some s.environmentId ≠ set.environmentId) then
    .error (.validation "Secret set member scope mismatch")
  else .ok ()

/-- The members of a new set, with the ids from `next` on. -/
def memberRows (v : Tables P) (set : SecretSet) :
    Nat → List (Nat × Option String) → List String → Except Refusal (List SetMember)
  | _, [], _ => .ok []
  | next, (secretId, name) :: rest, outputNames => do
    let s ← getSecretRow v secretId
    if s.namespaceId ≠ set.namespaceId ∨ s.tenantId ≠ set.tenantId then
      .error (.validation "Secret set members must belong to the same namespace")
    else
      assertSetMemberScope set s
      let «alias» := cleanString host name
      let outputName := «alias».getD s.key
      if outputName ∈ outputNames then
        .error (.validation "Secret set output names must be unique")
      else
        let rows ← memberRows v set (next + 1) rest (outputName :: outputNames)
        .ok (⟨next, set.id, s.id, «alias»⟩ :: rows)

def createSecretSet (v : Tables P) (scope : Scope) (name : String)
    (members : List (Nat × Option String)) : Tables P × Except Refusal SecretSet :=
  if host.trim name = "" then (v, .error (.validation "Secret set name is required"))
  else
    match resolveScope host v scope
      (truthy scope.environment = none ∧ scope.environmentId = none) false with
    | (v, .error refusal) => (v, .error refusal)
    | (v, .ok r) =>
      let tenantId := scope.tenantId.or r.«namespace».tenantId
      let environmentId := r.environment.map Environment.id
      match findSet v tenantId r.«namespace».id name environmentId with
      | some _ => (v, .error (.validation "Secret set already exists"))
      | none =>
        let set : SecretSet := ⟨v.nextId, tenantId, r.«namespace».id, environmentId, name⟩
        match memberRows host v set (v.nextId + 1) members [] with
        | .error refusal => (v, .error refusal)
        | .ok rows =>
          ({ v with
              sets := v.sets ++ [set]
              members := v.members ++ rows
              nextId := v.nextId + 1 + rows.length }, .ok set)

def updateSecretSet (v : Tables P) (id : Nat) (name : Option String) :
    Except Refusal (Tables P) := do
  let existing ← getSecretSetRow v id
  match name.map host.trim with
  | none => .ok v
  | some name =>
    if name = "" then .error (.validation "Secret set name is required")
    else if name = existing.name then .ok v
    else
      match findSet v existing.tenantId existing.namespaceId name existing.environmentId with
      | some duplicate =>
        if duplicate.id ≠ id then .error (.validation "Secret set already exists")
        else .ok { v with sets := v.sets.map fun s => if s.id = id then { s with name } else s }
      | none =>
        .ok { v with sets := v.sets.map fun s => if s.id = id then { s with name } else s }

/-- In the order of creation. -/
def listSecretSetMembers (v : Tables P) (setId : Nat) : List SetMember :=
  v.members.filter fun m => m.setId = setId

/-- A member whose secret is gone has no name. -/
def outputNameOf (v : Tables P) (m : SetMember) : Option String :=
  match getSecretRow v m.secretId with
  | .ok s => some (m.«alias».getD s.key)
  | .error _ => none

def assertUniqueSetOutputName (v : Tables P) (setId : Nat) (name : Option String)
    (memberId : Option Nat) (s : Secret) : Except Refusal Unit :=
  let nextName := (cleanString host name).getD s.key
  if ∃ m ∈ listSecretSetMembers v setId,
      some m.id ≠ memberId ∧ outputNameOf v m = some nextName then
    if cleanString host name = none then
      .error (.validation "Alias is required when a set already contains this output name")
    else .error (.validation "Secret set output names must be unique")
  else .ok ()

def addSecretSetMember (v : Tables P) (setId secretId : Nat) (name : Option String) :
    Except Refusal (Tables P) := do
  let set ← getSecretSetRow v setId
  let s ← getSecretRow v secretId
  if s.namespaceId ≠ set.namespaceId then
    .error (.validation "Secret set members must belong to the same namespace")
  else
    assertSetMemberScope set s
    assertUniqueSetOutputName host v setId name none s
    .ok { v with
        members := v.members ++ [⟨v.nextId, setId, secretId, cleanString host name⟩]
        nextId := v.nextId + 1 }

def getMemberRow (v : Tables P) (id : Nat) : Except Refusal SetMember :=
  match v.members.find? fun m => m.id = id with
  | some m => .ok m
  | none => .error (.notFound "Secret set member not found")

/-- The alias is left alone, removed or replaced. -/
def updateSecretSetMember (v : Tables P) (id : Nat) (secretId : Option Nat)
    (name : Option (Option String)) : Except Refusal (Tables P) := do
  let existing ← getMemberRow v id
  let set ← getSecretSetRow v existing.setId
  let s ← getSecretRow v (secretId.getD existing.secretId)
  if s.namespaceId ≠ set.namespaceId then
    .error (.validation "Secret set members must belong to the same namespace")
  else
    assertSetMemberScope set s
    if secretId = none ∧ name = none then .ok v
    else
      assertUniqueSetOutputName host v existing.setId (name.getD existing.«alias») (some id) s
      .ok { v with
          members := v.members.map fun m =>
            if m.id = id then
              { m with
                secretId := secretId.getD m.secretId
                «alias» := name.elim m.«alias» (cleanString host) }
            else m }

def removeSecretSetMember (v : Tables P) (id : Nat) : Except Refusal (Tables P) := do
  let _ ← getMemberRow v id
  .ok { v with members := v.members.filter fun m => m.id ≠ id }

def deleteSecretSet (v : Tables P) (id : Nat) : Except Refusal (Tables P) := do
  let _ ← getSecretSetRow v id
  .ok { v with
      members := v.members.filter fun m => m.setId ≠ id
      sets := v.sets.filter fun s => s.id ≠ id }

/-! ## Tokens -/

/-- The namespace of the id, or else what is found by name. -/
def scopedNamespace (v : Tables P) (scope : Scope) (byName : Option Namespace) :
    Except Refusal (Option Namespace) :=
  match scope.namespaceId with
  | some id =>
    (ensureNamespace host v scope.tenantId (some id) scope.«namespace» false).map fun r => some r.2
  | none => .ok byName

/-- The environment of the id. -/
def scopedEnvironment (v : Tables P) (scope : Scope) («namespace» : Option Namespace) :
    Except Refusal (Option Environment) :=
  match scope.environmentId with
  | some id =>
    (ensureEnvironment host v scope.tenantId («namespace».map Namespace.id) (some id)
      scope.environment false).map fun r => some r.2
  | none => .ok none

/-- The namespace and the environment of a new token. -/
def tokenRecords (v : Tables P) (scope : Scope) :
    Except Refusal (Option Namespace × Option Environment) := do
  let «namespace» ← scopedNamespace host v scope
    ((truthy scope.«namespace»).bind fun name => findNamespace host v scope.tenantId (some name))
  match scope.environmentId with
  | none => .ok («namespace», none)
  | some id =>
    let e ← getEnvironment v id
    if scope.tenantId ≠ none ∧ e.tenantId ≠ scope.tenantId then
      .error (.notFound "Environment not found")
    else
      match e.namespaceId with
      | none => .ok («namespace», some e)
      | some parentId =>
        if «namespace» ≠ none ∧ «namespace».map Namespace.id ≠ some parentId then
          .error (.validation "Token scope mismatch")
        else
          let r ← ensureNamespace host v scope.tenantId (some parentId) none false
          .ok (some r.2, some e)

/-- A token keeps the names of its namespace and its environment. -/
def createServiceToken (v : Tables P) (scope : Scope) (raw : String) (scopes : List String)
    (expiresAt : Option String) : Except Refusal (Tables P × ServiceToken) := do
  let records ← tokenRecords host v scope
  let record : ServiceToken :=
    { id := v.nextId
      tokenHash := host.hashToken raw
      tenantId := (scope.tenantId.or (records.1.bind Namespace.tenantId)).or
        (records.2.bind Environment.tenantId)
      «namespace» := (records.1.map Namespace.slug).or
        ((truthy scope.«namespace»).map (normalizeSlug host))
      environment := (records.2.map Environment.name).or
        ((truthy scope.environment).map (normalizeName host))
      scopes
      expiresAt
      revoked := false }
  if ∃ t ∈ v.tokens, t.tokenHash = record.tokenHash then .error .conflict
  else .ok ({ v with tokens := v.tokens ++ [record], nextId := v.nextId + 1 }, record)

def revokeServiceToken (v : Tables P) (id : Nat) : Except Refusal (Tables P) :=
  if ∃ t ∈ v.tokens, t.id = id then
    .ok { v with
      tokens := v.tokens.map fun t => if t.id = id then { t with revoked := true } else t }
  else .error (.notFound "Service token not found")

/-- A token with a date that does not parse has expired. -/
def tokenExpired (token : ServiceToken) (now : Int) : Bool :=
  match truthy token.expiresAt with
  | none => false
  | some text =>
    match host.parseDate text with
    | none => true
    | some date => date ≤ now

def verifyRuntimeToken (v : Tables P) (now : Int) (raw : String) (scope : Scope) :
    Except Refusal ServiceToken :=
  match v.tokens.find? fun t => t.tokenHash = host.hashToken raw with
  | none => .error (.forbidden "Invalid runtime token")
  | some token =>
    if token.revoked then .error (.forbidden "Invalid runtime token")
    else if tokenExpired host token now then .error (.forbidden "Runtime token has expired")
    else do
      let scope ← validateScopeRepresentations host v scope
      if truthy token.tenantId ≠ none ∧ token.tenantId ≠ scope.tenantId then
        .error (.forbidden "Runtime token tenant mismatch")
      else
        let «namespace» ← scopedNamespace host v scope
          (findNamespace host v scope.tenantId scope.«namespace»)
        let environment ← scopedEnvironment host v scope «namespace»
        let slug := («namespace».map Namespace.slug).getD
          (normalizeSlug host (scope.«namespace».getD ""))
        let name := (environment.map Environment.name).getD
          (normalizeName host (scope.environment.getD defaultEnvironment))
        if truthy token.«namespace» ≠ none ∧ token.«namespace» ≠ some slug then
          .error (.forbidden "Runtime token namespace mismatch")
        else if truthy token.environment ≠ none ∧ token.environment ≠ some name then
          .error (.forbidden "Runtime token environment mismatch")
        else .ok token

/-! ## Reading a set -/

structure SetResponse where
  name : String
  «namespace» : String
  secrets : List (String × String)

/-- The members in their order: a revoked secret is passed over. -/
def resolveMembers (v : Tables P) (token : ServiceToken) (r : ResolvedScope) :
    List SetMember → List (String × String) → Except Refusal (List (String × String))
  | [], secrets => .ok secrets
  | m :: rest, secrets => do
    let row ← getSecretRow v m.secretId
    let s := hydrateSecret v row
    if s.revoked then resolveMembers v token r rest secrets
    else if inRuntimeScope token r s = false then
      .error (.forbidden "Runtime token secret scope mismatch")
    else
      let response ← decryptRuntimeSecret host v s
      let outputName := m.«alias».getD s.key
      if outputName ∈ secrets.map Prod.fst then
        .error (.validation "Secret set output names must be unique")
      else resolveMembers v token r rest (secrets ++ [(outputName, response.value)])

/-- An exact binding wins; legacy unbound sets remain a fallback. -/
def resolveRuntimeSet (v : Tables P) (name : String) (token : ServiceToken) (scope : Scope) :
    Tables P × Except Refusal SetResponse :=
  if hasScope token.scopes "set" name = false then
    (v, .error (.forbidden "Runtime token cannot read this secret set"))
  else
    match resolveScope host v scope false true with
    | (v, .error refusal) => (v, .error refusal)
    | (v, .ok r) =>
      match (findSet v r.tenantId r.«namespace».id name (r.environment.map Environment.id)).or
        (findSet v r.tenantId r.«namespace».id name none) with
      | none => (v, .error (.notFound "Secret set not found"))
      | some set =>
        match resolveMembers host v token r (listSecretSetMembers v set.id) [] with
        | .error refusal => (v, .error refusal)
        | .ok secrets => (v, .ok ⟨set.name, r.«namespace».slug, secrets⟩)

/-! ## Runs -/

inductive Op where
  | createNamespace (tenantId : Option String) (slug : String) (label : Option String)
  | updateNamespace (id : Nat) (slug label : Option String)
  | createEnvironment (tenantId : Option String) (namespaceId : Option Nat)
      (namespaceName : Option String) (name : String)
  | updateEnvironment (id : Nat) (name : Option String)
  | call (call : Call)
  | createSecretSet (scope : Scope) (name : String) (members : List (Nat × Option String))
  | updateSecretSet (id : Nat) (name : Option String)
  | addSecretSetMember (setId secretId : Nat) (name : Option String)
  | updateSecretSetMember (id : Nat) (secretId : Option Nat) (name : Option (Option String))
  | removeSecretSetMember (id : Nat)
  | deleteSecretSet (id : Nat)
  | createServiceToken (scope : Scope) (raw : String) (scopes : List String)
      (expiresAt : Option String)
  | revokeServiceToken (id : Nat)
  | resolveRuntimeSet (name : String) (token : ServiceToken) (scope : Scope)

/-- What was there before, when the operation is refused. -/
def orBefore (v : Tables P) : Except Refusal (Tables P) → Tables P
  | .ok v' => v'
  | .error _ => v

/-- The tables after an operation. A refused operation may have created what it resolved. -/
def perform (v : Tables P) : Op → Tables P
  | .createNamespace tenantId slug label =>
    orBefore v ((createNamespace host v tenantId slug label).map Prod.fst)
  | .updateNamespace id slug label => orBefore v (updateNamespace host v id slug label)
  | .createEnvironment tenantId namespaceId namespaceName name =>
    (createEnvironment host v tenantId namespaceId namespaceName name).1
  | .updateEnvironment id name => orBefore v (updateEnvironment host v id name)
  | .call call => (runCall host v call).1
  | .createSecretSet scope name members => (createSecretSet host v scope name members).1
  | .updateSecretSet id name => orBefore v (updateSecretSet host v id name)
  | .addSecretSetMember setId secretId name =>
    orBefore v (addSecretSetMember host v setId secretId name)
  | .updateSecretSetMember id secretId name =>
    orBefore v (updateSecretSetMember host v id secretId name)
  | .removeSecretSetMember id => orBefore v (removeSecretSetMember v id)
  | .deleteSecretSet id => orBefore v (deleteSecretSet v id)
  | .createServiceToken scope raw scopes expiresAt =>
    orBefore v ((createServiceToken host v scope raw scopes expiresAt).map Prod.fst)
  | .revokeServiceToken id => orBefore v (revokeServiceToken v id)
  | .resolveRuntimeSet name token scope => (resolveRuntimeSet host v name token scope).1

def performAll (v : Tables P) (ops : List Op) : Tables P := ops.foldl (perform host) v

end Operations

end SuperFunctions.Secfn.VaultService
