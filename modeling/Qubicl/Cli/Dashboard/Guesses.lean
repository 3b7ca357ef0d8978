import Qubicl.Cli.Dashboard.System

/-!
# Wrong passwords at the dashboard (packages/cli/src/dashboard/auth.ts:91-115, 223-252, 357-418)

The interleavings of the authentication with its clock and with the one queue of key derivations: what waits there is one
derivation that runs and those that are pending, and an attempt is refused when too many are.
-/

namespace Qubicl.Cli.Dashboard
open Foundation DashboardAuthManager

def maxKdfQueue : ℕ := 8

/- A wrong password that a key was derived from. A bucket is known by when it resets, that of a peer also by how often
the buckets of the peer were cleared before. -/
structure Guess where
  peer : String
  globalBucket : ℤ
  peerBucket : ℤ
  cleared : ℕ
  deriving DecidableEq, Repr

/- `others` are the derivations in the queue that are none of this manager's attempts. `guesses` and `clears` are read by
nothing: the wrong passwords, and the peers whose buckets a sign-in has cleared. -/
structure GuessWorld where
  auth : AuthWorld
  others : ℕ
  clock : ℤ
  guesses : List Guess
  clears : List String

inductive GuessAction
  | call (action : AuthAction)
  | otherScheduled
  | otherDone

/- What `now()` returns to an action, in this order. -/
def AuthAction.times : AuthAction → List ℤ
  | .beginLogin _ _ now => [now]
  | .beginReauthenticate _ _ _ now again => [now,again]
  | .derive _ now => [now]
  | .authenticate _ now => [now]
  | .hasValidCsrf _ _ now => [now]
  | .recordActivity _ now again => [now,again]
  | .revoke _ now => [now]
  | .list now => [now]
  | _ => []

def waitingKeys (attempts : List Attempt) : ℕ := (attempts.filter fun a => !a.derived).length

def waitingKeysOf (peer : String) (attempts : List Attempt) : ℕ :=
  (attempts.filter fun a => !a.derived && a.peer == peer).length

def AuthWorld.clearsPeer (a : Attempt) (w : AuthWorld) : Bool :=
  w.unchanged a && match a.session with
    | none => true
    | some (ref,originalHash) => (w.manager.sessionsByHash.lookup originalHash).any fun record =>
        record.ref == ref && record.tokenHash == originalHash

namespace GuessWorld
variable (limits : SessionLimits) (crypto : DashboardCrypto) (g : GuessWorld)

/- `pending.length` of `SingleKdfQueue`: all but the one that runs. -/
def pending : ℕ := g.others+waitingKeys g.auth.attempts - 1

/- The derivation of an attempt that was just begun is refused when the queue is full. -/
def schedule (after : AuthWorld) : AuthWorld :=
  if g.auth.attempts.length<after.attempts.length ∧ maxKdfQueue≤g.pending then
    { after with attempts := g.auth.attempts }
  else after

def evaluated (after : AuthWorld) : AuthAction → List Guess
  | .derive number _ => match g.auth.waiting number false with
    | some a =>
      if passwordMatches crypto a.password a.verifier.value then []
      else [⟨a.peer,after.manager.globalFailures.resetsAt,
        ((after.manager.peerFailures.lookup a.peer).map RateBucket.resetsAt).getD 0,g.clears.count a.peer⟩]
    | none => []
  | _ => []

def signedIn : AuthAction → List String
  | .resume number => match g.auth.waiting number true with
    | some a => if g.auth.clearsPeer a then [a.peer] else []
    | none => []
  | _ => []

/-- The clock never runs back. -/
def step : GuessAction → Option GuessWorld
  | .call action =>
    if (g.clock::action.times).Pairwise (· ≤ ·) then
      (g.auth.step limits crypto action).map fun after =>
        { g with
          auth := g.schedule after
          clock := action.times.getLast?.getD g.clock
          guesses := g.evaluated crypto after action++g.guesses
          clears := g.signedIn action++g.clears }
    else none
  | .otherScheduled => if maxKdfQueue≤g.pending then none else some { g with others := g.others+1 }
  | .otherDone => if g.others=0 then none else some { g with others := g.others - 1 }

end GuessWorld

def guessSystem (limits : SessionLimits) (crypto : DashboardCrypto) : TransitionSystem GuessWorld GuessAction where
  initial g := (authSystem limits crypto).initial g.auth ∧ g.others=0 ∧ 0≤g.clock ∧ g.guesses=[] ∧ g.clears=[]
  step g action := g.step limits crypto action

def globalCount (guesses : List Guess) (bucket : ℤ) : ℕ := guesses.countP fun guess => guess.globalBucket=bucket

def peerCount (guesses : List Guess) (peer : String) (bucket : ℤ) (cleared : ℕ) : ℕ :=
  guesses.countP fun guess => guess.peer=peer ∧ guess.peerBucket=bucket ∧ guess.cleared=cleared

/-- At most the limit and the length of the queue are found wrong while a bucket lasts, and no bucket of a peer is ever
dropped for that of another. -/
structure WithinBudget (g : GuessWorld) : Prop where
  global : ∀ bucket, globalCount g.guesses bucket≤globalFailureLimit+maxKdfQueue
  peer : ∀ peer bucket cleared, peerCount g.guesses peer bucket cleared≤peerFailureLimit+maxKdfQueue
  room : g.auth.manager.peerFailures.length < maxRateBuckets

end Qubicl.Cli.Dashboard
