import SuperFunctions.Lib.Processes

/-!
# Two-factor authentication

One user enrols, confirms, verifies, signs in with a challenge and disables again. Recovery codes,
counters and challenges are consumed by a read and a later update; only the counter is compared when
it is written. Every call makes one access to the database at a time, and each step may fail.
-/
namespace SuperFunctions.Authfn.TwoFactor

open Lib.Processes (System Act act)

/-- The row of `two_factor_enrollments`; `secret` stands for its encryption. -/
structure AuthFnTwoFactorEnrollmentRecord where
  id : String
  secret : String
  lastUsedCounter : Option Int
  confirmedAt : Option Int

structure AuthFnTwoFactorRecoveryCodeRecord (H : Type) where
  id : String
  enrollmentId : String
  codeHash : H
  usedAt : Option Int

structure AuthFnTwoFactorChallengeRecord where
  id : String
  expiresAt : Int
  consumedAt : Option Int

/-- `totp` is `generateTotp` with the digits of the plugin. -/
structure Config (H : Type) where
  hashSecret : String → H
  totp : String → Int → String
  toUpperCase : String → String
  periodSeconds : Nat
  window : Nat
  recoveryCodeCount : Nat
  challengeTtl : Int

/-- A satisfied challenge, with the time of the update and the expiry of its row. -/
structure Satisfaction where
  id : String
  at_ : Int
  expiresAt : Int

/-- A confirmation: the code, and the secret that the confirmed row stores. -/
structure Confirmation where
  code : String
  secret : String

/-- The tables of the user, whose enrollment is unique, and a history that nothing reads: random
values drawn, recovery codes and counters accepted, challenges satisfied, enrollments confirmed. -/
structure Store (H : Type) where
  enrollment : Option AuthFnTwoFactorEnrollmentRecord
  recoveryCodes : List (AuthFnTwoFactorRecoveryCodeRecord H)
  challenges : List AuthFnTwoFactorChallengeRecord
  drawn : List String
  usedCodes : List String
  counters : List (String × Int)
  satisfied : List Satisfaction
  confirmations : List Confirmation

inductive AuthFnError
  | unavailable
  | notFound
  | conflict
  | invalidCode
  | duplicate

inductive Request
  | createTwoFactorEnrollment
  | confirmTwoFactorEnrollment (code : String)
  | createTwoFactorChallenge
  | satisfyTwoFactorChallenge (challengeId code : String)
  | verifyTwoFactorCode (code : String)
  | disableTwoFactorEnrollment (code : String)

/-- What a call does once its code is accepted. -/
inductive Goal
  | confirm (enrollment : AuthFnTwoFactorEnrollmentRecord)
  | satisfy (challenge : AuthFnTwoFactorChallengeRecord) (now : Int)
  | verify
  | disable (enrollmentId : String)

/-- Where a call stands: what it has read, and which access is next. -/
inductive Phase (H : Type)
  | entered
  | replacing (existing : AuthFnTwoFactorEnrollmentRecord)
  | purging (enrollmentId : String)
  | inserting
  | issuing (enrollmentId : String) (count : Nat)
  | creating
  | findingUser (challenge : AuthFnTwoFactorChallengeRecord) (now : Int)
  | findingEnrollment (challenge : AuthFnTwoFactorChallengeRecord) (now : Int)
  | findingCodes (goal : Goal) (enrollment : AuthFnTwoFactorEnrollmentRecord) (now : Int)
  | markingCode (goal : Goal) (matched : AuthFnTwoFactorRecoveryCodeRecord H) (now : Int)
  /-- The compare-and-set of the counter, in the first or second attempt. -/
  | claiming (goal : Goal) (secret : String) (now : Int)
      (enrollment : AuthFnTwoFactorEnrollmentRecord) (counter : Int) (retried : Bool)
  | rereading (goal : Goal) (secret : String) (now : Int) (retried : Bool)
  | accepted (goal : Goal)
  | droppingCodes (enrollmentId : String)
  | droppingChallenges
  | returned
  | threw (error : AuthFnError)

structure Call (H : Type) where
  request : Request
  phase : Phase H

/-- What a step finds outside: the time of its access, the clock after it, whether it fails, whether
the user exists, and the random values it draws. -/
structure Choice where
  at_ : Int
  now : Int
  fails : Bool
  user : Bool
  id : String
  secret : String
  recoveryCode : String

variable {H : Type}

/-- The white space of `\s` and the dash. -/
def separates (c : Char) : Bool :=
  (9 ≤ c.toNat && c.toNat ≤ 13) || (0x2000 ≤ c.toNat && c.toNat ≤ 0x200A) || c = '-' ||
    c.toNat ∈ [0x20, 0xA0, 0x1680, 0x2028, 0x2029, 0x202F, 0x205F, 0x3000, 0xFEFF]

def Store.draw (store : Store H) (value : String) : Store H :=
  { store with drawn := value :: store.drawn }

section Calls

variable [DecidableEq H] (config : Config H)

def normalizeTwoFactorCode (value : String) : String :=
  config.toUpperCase (String.ofList (value.toList.filter fun c => !separates c))

/-- The first counter of the window, after the last used one, with this code. -/
def verifyTotpCode (secret code : String) (now : Int) (lastUsedCounter : Option Int) : Option Int :=
  let counter := now / (1000 * config.periodSeconds)
  ((List.range (2 * config.window + 1)).map fun offset => counter - config.window + offset).find?
    fun candidate => lastUsedCounter.all (· < candidate) && config.totp secret candidate = code

/-- `verifyTwoFactorTotp` up to its next access. -/
def tryTotp (code : String) (goal : Goal) (secret : String) (now : Int)
    (enrollment : AuthFnTwoFactorEnrollmentRecord) (retried : Bool) : Phase H :=
  match verifyTotpCode config secret (normalizeTwoFactorCode config code) now
    enrollment.lastUsedCounter with
  | none => .threw .invalidCode
  | some counter => .claiming goal secret now enrollment counter retried

/-- The unused recovery code with the hash of the code. -/
def matchRecoveryCode (store : Store H) (enrollmentId code : String) :
    Option (AuthFnTwoFactorRecoveryCodeRecord H) :=
  (store.recoveryCodes.filter fun row => row.enrollmentId = enrollmentId).find? fun row =>
    row.usedAt.isNone && row.codeHash = config.hashSecret (normalizeTwoFactorCode config code)

/-- Random values do not repeat. -/
def fresh (store : Store H) (value : String) : Bool := !store.drawn.contains value

def createTwoFactorEnrollment (store : Store H) (phase : Phase H) (c : Choice) :
    Option (Store H × Phase H) :=
  match phase with
  | .entered =>
    match store.enrollment with
    | none => some (store, .inserting)
    | some existing =>
      if existing.confirmedAt.isSome then some (store, .threw .conflict)
      else some (store, .replacing existing)
  | .replacing existing =>
    match store.enrollment with
    | none => some (store, .threw .notFound)
    | some row =>
      if row.id ≠ existing.id then some (store, .threw .notFound)
      else if !fresh store c.secret then none
      else some ({ store.draw c.secret with enrollment := some { row with
        secret := c.secret, lastUsedCounter := none, confirmedAt := none } }, .purging row.id)
  | .purging enrollmentId =>
    some ({ store with
      recoveryCodes := store.recoveryCodes.filter fun row => row.enrollmentId ≠ enrollmentId },
      .issuing enrollmentId config.recoveryCodeCount)
  | .inserting =>
    if store.enrollment.isSome then some (store, .threw .duplicate)
    else if !fresh store c.secret || !fresh (store.draw c.secret) c.id then none
    else some ({ (store.draw c.secret).draw c.id with
      enrollment := some ⟨c.id, c.secret, none, none⟩ },
      .issuing c.id config.recoveryCodeCount)
  | .issuing _ 0 => some (store, .returned)
  | .issuing enrollmentId (count + 1) =>
    let codeHash := config.hashSecret (normalizeTwoFactorCode config c.recoveryCode)
    if store.recoveryCodes.any fun row => row.codeHash = codeHash then
      some (store, .threw .duplicate)
    else if !fresh store c.id then none
    else some ({ store.draw c.id with
      recoveryCodes := store.recoveryCodes ++ [⟨c.id, enrollmentId, codeHash, none⟩] },
      .issuing enrollmentId count)
  | _ => none

def createTwoFactorChallenge (store : Store H) (phase : Phase H) (c : Choice) :
    Option (Store H × Phase H) :=
  match phase with
  | .entered =>
    match store.enrollment.bind (·.confirmedAt) with
    | none => some (store, .returned)
    | some _ => some (store, .creating)
  | .creating =>
    if !fresh store c.id then none
    else some ({ store.draw c.id with
      challenges := store.challenges ++ [⟨c.id, c.now + config.challengeTtl, none⟩] }, .returned)
  | _ => none

/-- `requireConfirmedEnrollment` -/
def confirmedEnrollment (store : Store H) : Option AuthFnTwoFactorEnrollmentRecord :=
  store.enrollment.filter fun row => row.confirmedAt.isSome

/-- The phases in which a code is accepted, and what follows from it. -/
def checkCode (store : Store H) (code : String) (phase : Phase H) (c : Choice) :
    Option (Store H × Phase H) :=
  match phase with
  | .findingCodes goal enrollment now =>
    match matchRecoveryCode config store enrollment.id code with
    | some matched => some (store, .markingCode goal matched now)
    | none => some (store, tryTotp config code goal enrollment.secret c.now enrollment false)
  | .markingCode goal matched now =>
    if store.recoveryCodes.any fun row => row.id = matched.id then
      some ({ store with
        recoveryCodes := store.recoveryCodes.map fun row =>
          if row.id = matched.id then { row with usedAt := some now } else row
        usedCodes := matched.id :: store.usedCodes }, .accepted goal)
    else some (store, .threw .notFound)
  | .claiming goal secret now enrollment counter retried =>
    match store.enrollment with
    | none => some (store, .rereading goal secret now retried)
    | some row =>
      if row.id = enrollment.id ∧ row.lastUsedCounter = enrollment.lastUsedCounter then
        some ({ store with
          enrollment := some { row with lastUsedCounter := some counter }
          counters := (secret, counter) :: store.counters }, .accepted goal)
      else some (store, .rereading goal secret now retried)
  | .rereading goal secret now retried =>
    match store.enrollment with
    | none => some (store, .threw .notFound)
    | some row =>
      if retried then some (store, .threw .invalidCode)
      else some (store, tryTotp config code goal secret now row true)
  | .accepted (.confirm enrollment) =>
    match store.enrollment with
    | none => some (store, .threw .notFound)
    | some row =>
      if row.id ≠ enrollment.id then some (store, .threw .notFound)
      else some ({ store with
        enrollment := some { row with confirmedAt := some c.now }
        confirmations := ⟨code, row.secret⟩ :: store.confirmations }, .returned)
  | .accepted (.satisfy challenge now) =>
    match store.challenges.find? fun row => row.id = challenge.id with
    | none => some (store, .threw .notFound)
    | some row => some ({ store with
        challenges := store.challenges.map fun row =>
          if row.id = challenge.id then { row with consumedAt := some now } else row
        satisfied := ⟨challenge.id, c.at_, row.expiresAt⟩ :: store.satisfied }, .returned)
  | .accepted .verify => some (store, .returned)
  | .accepted (.disable enrollmentId) =>
    if store.enrollment.any fun row => row.id = enrollmentId then
      some ({ store with enrollment := none }, .droppingCodes enrollmentId)
    else some (store, .threw .notFound)
  | .droppingCodes enrollmentId =>
    some ({ store with
      recoveryCodes := store.recoveryCodes.filter fun row => row.enrollmentId ≠ enrollmentId },
      .droppingChallenges)
  | .droppingChallenges => some ({ store with challenges := [] }, .returned)
  | _ => none

def confirmTwoFactorEnrollment (store : Store H) (code : String) (phase : Phase H) (c : Choice) :
    Option (Store H × Phase H) :=
  match phase with
  | .entered =>
    match store.enrollment with
    | none => some (store, .threw .notFound)
    | some row =>
      if row.confirmedAt.isSome then some (store, .returned)
      else some (store, tryTotp config code (.confirm row) row.secret c.now row false)
  | _ => checkCode config store code phase c

def satisfyTwoFactorChallenge (store : Store H) (challengeId code : String) (phase : Phase H)
    (c : Choice) : Option (Store H × Phase H) :=
  match phase with
  | .entered =>
    match store.challenges.find? fun row => row.id = challengeId with
    | none => some (store, .threw .notFound)
    | some challenge =>
      if challenge.consumedAt.isSome ∨ challenge.expiresAt ≤ c.now then
        some (store, .threw .invalidCode)
      else some (store, .findingUser challenge c.now)
  | .findingUser challenge now =>
    some (store, if c.user then .findingEnrollment challenge now else .threw .notFound)
  | .findingEnrollment challenge now =>
    match confirmedEnrollment store with
    | none => some (store, .threw .notFound)
    | some enrollment => some (store, .findingCodes (.satisfy challenge now) enrollment now)
  | _ => checkCode config store code phase c

/-- `verifyTwoFactorCode` and `disableTwoFactorEnrollment`, which differ in what follows. -/
def verifyFor (goal : AuthFnTwoFactorEnrollmentRecord → Goal) (store : Store H) (code : String)
    (phase : Phase H) (c : Choice) : Option (Store H × Phase H) :=
  match phase with
  | .entered =>
    match confirmedEnrollment store with
    | none => some (store, .threw .notFound)
    | some enrollment => some (store, .findingCodes (goal enrollment) enrollment c.now)
  | _ => checkCode config store code phase c

def verifyTwoFactorCode := verifyFor config fun _ => .verify

def disableTwoFactorEnrollment := verifyFor config fun enrollment => .disable enrollment.id

/-- A step that fails writes nothing. -/
def advance (store : Store H) (call : Call H) (c : Choice) : Option (Store H × Phase H) :=
  if c.fails then some (store, .threw .unavailable)
  else match call.request with
    | .createTwoFactorEnrollment => createTwoFactorEnrollment config store call.phase c
    | .createTwoFactorChallenge => createTwoFactorChallenge config store call.phase c
    | .confirmTwoFactorEnrollment code =>
      confirmTwoFactorEnrollment config store code call.phase c
    | .satisfyTwoFactorChallenge challengeId code =>
      satisfyTwoFactorChallenge config store challengeId code call.phase c
    | .verifyTwoFactorCode code => verifyTwoFactorCode config store code call.phase c
    | .disableTwoFactorEnrollment code =>
      disableTwoFactorEnrollment config store code call.phase c

def next (store : Store H) (_ : Nat) (call : Call H) (c : Choice) : Option (Store H × Call H) :=
  (advance config store call c).map fun outcome => (outcome.1, { call with phase := outcome.2 })

abbrev Service (H : Type) := System (Store H) (Call H)

def serviceStep : Service H → Act Request Choice → Option (Service H) :=
  act (fun request => ⟨request, .entered⟩) (next config)

end Calls

def Store.empty : Store H := ⟨none, [], [], [], [], [], [], []⟩

end SuperFunctions.Authfn.TwoFactor
