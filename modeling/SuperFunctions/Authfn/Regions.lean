import SuperFunctions.Lib.Processes

/-!
# Region registration

A lookup store names the region of an identifier under a prefixed key and, from releases of the
past, under the identifier itself. A password sign-up registers its region there after the user
was created and takes the registration back when it fails; lookups carry old entries over to the
prefixed key. Each of them makes one call of the store or the database at a time. The identifier is
fixed, and its two keys are the store.
-/
namespace SuperFunctions.Authfn.Regions

open Lib.Processes (System Act act)

structure AuthFnRegionLookupRecord where
  identifier : String
  userId : Option String
  regionId : String
  authority : String
  domain : Option String
  createdAt : String
  updatedAt : String
deriving DecidableEq

/-- The text under a key: that of a record, or one that does not parse as a record. -/
inductive LookupValue
  | record (record : AuthFnRegionLookupRecord)
  | unreadable (text : String)

section Records

/-- White space and line terminators, as `trim` takes them. -/
def isSpace (c : Char) : Bool :=
  (9 ≤ c.toNat && c.toNat ≤ 13) || (0x2000 ≤ c.toNat && c.toNat ≤ 0x200A) ||
    c.toNat ∈ [0x20, 0xA0, 0x1680, 0x2028, 0x2029, 0x202F, 0x205F, 0x3000, 0xFEFF]

def trim (text : String) : String :=
  String.ofList ((text.toList.dropWhile isSpace).reverse.dropWhile isSpace).reverse

def normalizeOptionalString (value : Option String) : Option String :=
  value.bind fun text => if trim text = "" then none else some (trim text)

/-- `none` for the identifiers that are refused. -/
def normalizeIdentifier (toLowerCase : String → String) (identifier : String) : Option String :=
  let normalized := toLowerCase (trim identifier)
  if normalized = "" ∨ '@' ∉ normalized.toList then none else some normalized

def serializeLookupRecord (record : AuthFnRegionLookupRecord) : LookupValue := .record record

def parseLookupRecord (value : Option LookupValue) : Option AuthFnRegionLookupRecord :=
  match value with
  | some (.record r) => some { r with
      userId := normalizeOptionalString r.userId
      domain := normalizeOptionalString r.domain }
  | _ => none

end Records

/-- The values under the prefixed key and under the bare identifier. -/
structure LookupStore where
  current : Option LookupValue
  legacy : Option LookupValue

/-- An id of `createIdentifier`. -/
structure UserId where
  text : String
  trimmed : normalizeOptionalString (some text) = some text

structure Region where
  regionId : String
  authority : String
  domain : Option String

/-- A sign-up: the id of its user, the region it happens in, and the times of its profile. -/
structure SignUp where
  userId : UserId
  region : Option Region
  createdAt : String
  updatedAt : String

inductive Kind
  | signUp (signUp : SignUp)
  | lookup

/-- What a call does next. -/
inductive Phase
  | createPasswordCredential
  | findRegionProfile
  | getCurrent
  | getLegacy
  | migrate (legacy : AuthFnRegionLookupRecord)
  | setIfAbsent
  | refresh
  | writeProfile
  | takeBack
  | project
  | setCached
  | registered
  | signedUp
  | unregister
  | unregisterLegacy
  | failed
  | looked
deriving DecidableEq

/-- `insertedLookup` is set by the call's own `setIfAbsent` until the call deletes the entry. -/
structure Call where
  kind : Kind
  phase : Phase
  insertedLookup : Bool

section Registration

variable (toLowerCase : String → String) (identifier : String) (gateway : Bool)

def lookupRecord (signUp : SignUp) (region : Region) : AuthFnRegionLookupRecord where
  identifier := identifier
  userId := some signUp.userId.text
  regionId := region.regionId
  authority := region.authority
  domain := region.domain
  createdAt := signUp.createdAt
  updatedAt := signUp.updatedAt

def recordsReferToSameRegionUser (existing expected : AuthFnRegionLookupRecord) : Bool :=
  normalizeIdentifier toLowerCase existing.identifier = some expected.identifier &&
    existing.regionId = expected.regionId &&
    (existing.userId = none || existing.userId = expected.userId)

def shouldRefreshExistingLookup (existing expected : AuthFnRegionLookupRecord) : Bool :=
  existing.userId = none && expected.userId.isSome

/-- What follows when the key was taken. A registration that throws is rolled back. -/
def checkExisting (existing : Option AuthFnRegionLookupRecord)
    (expected : AuthFnRegionLookupRecord) : Phase :=
  match existing with
  | none => .writeProfile
  | some existing =>
    if !recordsReferToSameRegionUser toLowerCase existing expected then .unregister
    else if shouldRefreshExistingLookup existing expected then .refresh
    else .writeProfile

/-- What follows `readLookupStoreRecord`. -/
def afterRead (kind : Kind) (found : Option AuthFnRegionLookupRecord) : Phase :=
  match kind with
  | .lookup => .looked
  | .signUp signUp =>
    match signUp.region, found with
    | some region, some record =>
      checkExisting toLowerCase (parseLookupRecord (some (serializeLookupRecord record)))
        (lookupRecord identifier signUp region)
    | _, _ => .setIfAbsent

/-- What follows a call that failed: a lookup throws, a sign-up is rolled back. -/
def afterFailure (kind : Kind) : Phase :=
  match kind with
  | .lookup => .failed
  | .signUp _ => .unregister

/-- The entry that a sign-up puts under the prefixed key. -/
def entryOf (kind : Kind) : Option AuthFnRegionLookupRecord :=
  match kind with
  | .signUp ⟨userId, some region, createdAt, updatedAt⟩ =>
    some (lookupRecord identifier ⟨userId, some region, createdAt, updatedAt⟩ region)
  | _ => none

def readLookupStoreRecord (store : LookupStore) (call : Call) (fails : Bool) : LookupStore × Call :=
  if fails then (store, { call with phase := afterFailure call.kind })
  else match call.phase with
    | .getCurrent =>
      match parseLookupRecord store.current with
      | some record => (store, { call with
          phase := afterRead toLowerCase identifier call.kind (some record) })
      | none => (store, { call with phase := .getLegacy })
    | .getLegacy =>
      match parseLookupRecord store.legacy with
      | some record => (store, { call with phase := .migrate record })
      | none => (store, { call with phase := afterRead toLowerCase identifier call.kind none })
    | .migrate legacy =>
      match store.current with
      | none => ({ store with current := some (serializeLookupRecord legacy) }, { call with
          phase := afterRead toLowerCase identifier call.kind (some legacy) })
      | some value => (store, { call with
          phase := afterRead toLowerCase identifier call.kind
            (some ((parseLookupRecord (some value)).getD legacy)) })
    | _ => (store, call)

/-- The rest of `registerUserRegion`, with the record that is to be registered. -/
def registerUserRegion (store : LookupStore) (call : Call) (fails : Bool)
    (record : AuthFnRegionLookupRecord) : LookupStore × Call :=
  match call.phase with
  | .setIfAbsent =>
    if fails then (store, { call with phase := .unregister })
    else match store.current with
      | none => ({ store with current := some (serializeLookupRecord record) },
          { call with phase := .writeProfile, insertedLookup := true })
      | some value => (store, { call with
          phase := checkExisting toLowerCase (parseLookupRecord (some value)) record })
  | .refresh =>
    if fails then (store, { call with phase := .unregister })
    else ({ store with current := some (serializeLookupRecord record) },
      { call with phase := .writeProfile })
  | .writeProfile =>
    if fails then
      (store, { call with phase := if call.insertedLookup then .takeBack else .unregister })
    else (store, { call with phase := if gateway then .project else .setCached })
  | .takeBack =>
    if fails then (store, { call with phase := .unregister })
    else ({ store with current := none },
      { call with phase := .unregister, insertedLookup := false })
  | .project =>
    if fails then (store, { call with phase := .setCached })
    else ({ store with current := some (serializeLookupRecord record) },
      { call with phase := .setCached })
  | _ => (store, call)

/-- The parts of a sign-up around the registration. Whatever throws starts the rollback, and a
rollback that cannot delete the one entry leaves the other one as well. -/
def signUpWithPassword (store : LookupStore) (call : Call) (fails : Bool) (signUp : SignUp) :
    LookupStore × Call :=
  match call.phase with
  | .unregister =>
    if fails then (store, { call with phase := .failed })
    else ({ store with current := none },
      { call with phase := .unregisterLegacy, insertedLookup := false })
  | .unregisterLegacy =>
    if fails then (store, { call with phase := .failed })
    else ({ store with legacy := none }, { call with phase := .failed })
  | phase =>
    if fails then (store, { call with phase := .unregister })
    else match phase, signUp.region with
      | .createPasswordCredential, _ => (store, { call with phase := .findRegionProfile })
      | .findRegionProfile, none => (store, { call with phase := .registered })
      | .findRegionProfile, some _ =>
        (store, { call with phase := if gateway then .writeProfile else .getCurrent })
      | .setCached, _ => (store, { call with phase := .registered })
      | _, _ => (store, { call with phase := .signedUp })

/-- One call of the store or the database; `fails` makes it throw. -/
def step (store : LookupStore) (_ : Nat) (call : Call) (fails : Bool) :
    Option (LookupStore × Call) :=
  match call.phase with
  | .failed | .signedUp | .looked => none
  | .getCurrent | .getLegacy | .migrate _ =>
    some (readLookupStoreRecord toLowerCase identifier store call fails)
  | .setIfAbsent | .refresh | .writeProfile | .takeBack | .project =>
    (entryOf identifier call.kind).map (registerUserRegion toLowerCase gateway store call fails)
  | _ =>
    match call.kind with
    | .signUp signUp => some (signUpWithPassword gateway store call fails signUp)
    | .lookup => none

def newCall : Kind → Call
  | .signUp signUp => ⟨.signUp signUp, .createPasswordCredential, false⟩
  | .lookup => ⟨.lookup, .getCurrent, false⟩

abbrev Deployment := System LookupStore Call

def deploymentStep : Deployment → Act Kind Bool → Option Deployment :=
  act newCall (step toLowerCase identifier gateway)

end Registration

end SuperFunctions.Authfn.Regions
