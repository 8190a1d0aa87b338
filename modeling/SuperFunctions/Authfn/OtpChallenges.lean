import SuperFunctions.Lib.Processes

/-!
# One-time codes

A code is sent for one purpose to one email, and verified against the latest challenge. A call that
verifies reads the challenge, compares the code, writes the attempt back or asks the users and the
hooks, and consumes the challenge. Between any two of these steps other calls may run, and each
step may fail.
-/
namespace SuperFunctions.Authfn.OtpChallenges

open Lib.Processes (System Act act)

inductive AuthFnOtpPurpose | verifyEmail | signIn | signUp | resetPassword

/-- A row of `otp_challenges` for the purpose and the email. -/
structure AuthFnOtpChallengeRecord (H : Type) where
  id : String
  codeHash : H
  attemptCount : Nat
  expiresAt : Int
  consumedAt : Option Int
  createdAt : Int

/-- `otpSignUpExistingUser` is the account-linking option. -/
structure Config (H : Type) where
  purpose : AuthFnOtpPurpose
  hashSecret : String → H
  maxAttempts : Nat
  challengeTtl : Int
  otpSignUpExistingUser : Bool

/-- A challenge that was consumed, when and with which code; `now` is the time of its checks. -/
structure Consumption where
  id : String
  code : String
  now : Int
  at_ : Int

/-- The table and a history that nothing reads: the codes that were sent, the challenge of every
comparison and the consumptions. -/
structure Store (H : Type) where
  rows : List (AuthFnOtpChallengeRecord H)
  sent : List (String × String)
  compared : List String
  consumptions : List Consumption

inductive AuthFnError
  | unavailable
  | hookAborted
  | invalidCodeGenerator
  | otpInvalid
  | otpReplayed
  | otpExpired
  | userExists

inductive Request
  | sendOtpChallenge
  | verifyOtpChallenge (code : String)
  | completeResetPassword (code : String)

/-- Where a call stands. `challenge` is the row as the call read it. -/
inductive Phase (H : Type)
  | entered
  /-- `beforeChallengeSend` runs. -/
  | hooking (now : Int)
  | delivering
  | read (challenge : Option (AuthFnOtpChallengeRecord H))
  /-- The attempt is about to be written back. -/
  | counting (challenge : AuthFnOtpChallengeRecord H) (attemptCount : Nat)
  /-- The code was right; the users and the hooks are asked. -/
  | matched (challenge : AuthFnOtpChallengeRecord H) (attemptCount : Nat) (now : Int)
  | consuming (challenge : AuthFnOtpChallengeRecord H) (attemptCount : Nat) (now : Int)
  | consumed
  | returned
  | threw (error : AuthFnError)

structure Call (H : Type) where
  request : Request
  phase : Phase H

/-- What the users and the hooks answer to a call with the right code; `none` where the lookup or
the hook throws. -/
structure Answers where
  user : Option Bool
  /-- Whether the email of `resolveOtpSignUpUserInput` has a user. -/
  signUp : Option Bool

/-- What a step finds outside: the time, whether it fails, the id and the code of a new challenge,
and the answers of the users and the hooks. -/
structure Choice where
  at_ : Int
  fails : Bool
  id : String
  code : String
  answers : Answers

variable {H : Type}

/-- The order of `findLatestChallenge`. -/
def newer (a b : AuthFnOtpChallengeRecord H) : Bool :=
  b.createdAt < a.createdAt || (a.createdAt = b.createdAt && b.id < a.id)

def findLatestChallenge (rows : List (AuthFnOtpChallengeRecord H)) :
    Option (AuthFnOtpChallengeRecord H) :=
  rows.foldl (fun best row =>
    match best with
    | none => some row
    | some latest => if newer row latest then some row else some latest) none

def Store.update (store : Store H) (id : String)
    (change : AuthFnOtpChallengeRecord H → AuthFnOtpChallengeRecord H) : Store H :=
  { store with rows := store.rows.map fun row => if row.id = id then change row else row }

def incrementAttemptCount (store : Store H) (id : String) (attemptCount : Nat) : Store H :=
  store.update id fun row => { row with attemptCount }

/-- The update of the row that is not consumed; `none` when there is no such row. -/
def consumeOtpChallenge (store : Store H) (challenge : AuthFnOtpChallengeRecord H)
    (attemptCount : Nat) (now : Int) : Option (Store H) :=
  if store.rows.any fun row => row.id = challenge.id && row.consumedAt.isNone then
    some (store.update challenge.id fun row =>
      if row.consumedAt.isNone then { row with attemptCount, consumedAt := some now } else row)
  else none

/-- The code of a call that verifies one. -/
def Request.code : Request → Option String
  | .sendOtpChallenge => none
  | .verifyOtpChallenge code | .completeResetPassword code => some code

section Calls

variable [DecidableEq H] (config : Config H)

/-- What follows from the challenge that was read. The comparison is marked. -/
def check (store : Store H) (challenge : Option (AuthFnOtpChallengeRecord H)) (code : String)
    (now : Int) : Store H × Phase H :=
  match challenge with
  | none => (store, .threw .otpInvalid)
  | some challenge =>
    let attemptCount := challenge.attemptCount + 1
    if challenge.consumedAt.isSome then (store, .threw .otpReplayed)
    else if challenge.expiresAt ≤ now then (store, .threw .otpExpired)
    else if config.maxAttempts < attemptCount then (store, .counting challenge attemptCount)
    else
      let compared := { store with compared := challenge.id :: store.compared }
      if challenge.codeHash ≠ config.hashSecret code then
        (compared, .counting challenge attemptCount)
      else (compared, .matched challenge attemptCount now)

/-- Whether the answers let a call with the right code go on. -/
def proceeds (answers : Answers) : Except AuthFnError Unit :=
  match answers.user with
  | none => .error .unavailable
  | some user =>
    match config.purpose with
    | .verifyEmail => .ok ()
    | .signIn | .resetPassword => if user then .ok () else .error .otpInvalid
    | .signUp =>
      match answers.signUp with
      | none => .error .hookAborted
      | some existing =>
        if existing && !config.otpSignUpExistingUser then .error .userExists else .ok ()

/-- `assertValidCode` -/
def validCode (code : String) : Bool :=
  code.length = 6 && code.toList.all fun c => '0' ≤ c && c ≤ '9'

def sendOtpChallenge (store : Store H) (phase : Phase H) (c : Choice) :
    Option (Store H × Phase H) :=
  match phase with
  | .entered => some (store, .hooking c.at_)
  | .hooking now =>
    if c.fails then some (store, .threw .hookAborted)
    else if !validCode c.code then some (store, .threw .invalidCodeGenerator)
    else if store.rows.any fun row => row.id = c.id then some (store, .threw .unavailable)
    else
      let challenge : AuthFnOtpChallengeRecord H :=
        ⟨c.id, config.hashSecret c.code, 0, now + config.challengeTtl, none, now⟩
      some ({ store with
        rows := store.rows ++ [challenge], sent := (c.id, c.code) :: store.sent }, .delivering)
  | .delivering => some (store, if c.fails then .threw .unavailable else .returned)
  | _ => none

def verifyOtpChallenge (store : Store H) (code : String) (phase : Phase H) (c : Choice) :
    Option (Store H × Phase H) :=
  match phase with
  | .entered =>
    some (store, if c.fails then .threw .unavailable else .read (findLatestChallenge store.rows))
  | .read challenge => some (check config store challenge code c.at_)
  | .counting challenge attemptCount =>
    if c.fails then some (store, .threw .unavailable)
    else some (incrementAttemptCount store challenge.id attemptCount, .threw .otpInvalid)
  | .matched challenge attemptCount now =>
    match proceeds config c.answers with
    | .error error => some (store, .threw error)
    | .ok _ => some (store, .consuming challenge attemptCount now)
  | .consuming challenge attemptCount now =>
    if c.fails then some (store, .threw .unavailable)
    else match consumeOtpChallenge store challenge attemptCount now with
      | none => some (store, .threw .otpReplayed)
      | some store => some ({ store with
          consumptions := ⟨challenge.id, code, now, c.at_⟩ :: store.consumptions }, .consumed)
  -- What follows the consumption: the user, its hooks, a new password.
  | .consumed => some (store, if c.fails then .threw .unavailable else .returned)
  | _ => none

def advance (store : Store H) (call : Call H) (c : Choice) : Option (Store H × Phase H) :=
  match call.request with
  | .sendOtpChallenge => sendOtpChallenge config store call.phase c
  | .verifyOtpChallenge code | .completeResetPassword code =>
    verifyOtpChallenge config store code call.phase c

def next (store : Store H) (_ : Nat) (call : Call H) (c : Choice) : Option (Store H × Call H) :=
  (advance config store call c).map fun outcome => (outcome.1, { call with phase := outcome.2 })

abbrev Service (H : Type) := System (Store H) (Call H)

def serviceStep : Service H → Act Request Choice → Option (Service H) :=
  act (fun request => ⟨request, .entered⟩) (next config)

end Calls

def Store.empty : Store H := ⟨[], [], [], []⟩

end SuperFunctions.Authfn.OtpChallenges
