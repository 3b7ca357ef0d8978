import Qubicl.Foundation.Transition

/-!
# The state lock (packages/cli/src/state.ts:212-222, 306-427)

`withStateLock` as the sequence of file system calls it makes. A process is at
one of the calls (`Pc`) and a step of the system performs exactly one of them,
so that the runs contain every interleaving of the calls of any number of
processes. A process may die between any two calls.

All files are regular files of one user, so the checks at state.ts:366-368
never fail. The names of the two lock files are `LockPath.lock` (cli.lock) and
`LockPath.reclaim` (cli.lock.reclaim). A call that is not about an existing or a
missing file succeeds: `handle.sync`, which changes no file, is not a step.
-/

namespace Qubicl.Cli
open Foundation

structure FileId where
  dev : ℕ
  ino : ℕ
  deriving DecidableEq, Repr

/- What `readFile` can find: an owner record is written in one piece or in two,
and a proper prefix of the record is not valid JSON. `pid` is there when it is
a positive integer; `nonce` stands for the 24 random bytes. -/
inductive LockText
  | empty
  | torn
  | record (pid : Option ℕ) (nonce : Option ℕ)
  deriving DecidableEq, Repr

structure LockFile where
  id : FileId
  mtime : ℕ
  text : LockText
  /-- who created the file and when; `serial` numbers the files that were ever created -/
  creator : ℕ
  created : ℕ
  serial : ℕ
  deriving DecidableEq, Repr

inductive LockPath
  | lock | reclaim
  deriving DecidableEq, Repr

/-- `StateLockOwner`; the open handle is identified by the serial of its file. -/
structure LockOwner where
  nonce : ℕ
  id : FileId
  serial : ℕ
  deriving DecidableEq, Repr

structure StateLockSnapshot where
  id : FileId
  nonce : Option ℕ
  deriving DecidableEq, Repr

def LockOwner.snapshot (owner : LockOwner) : StateLockSnapshot := ⟨owner.id,some owner.nonce⟩

/-- The four calls of `createOwnedStateLock` in `acquireStateLock`. The last one
is made while the process holds the reclaimer. -/
inductive Site
  | first
  | retry
  | reclaimer
  | reclaimed (reclaimer : LockOwner)
  deriving DecidableEq, Repr

def Site.path : Site → LockPath
  | .reclaimer => .reclaim
  | _ => .lock

/-- The two calls of `staleStateLock`. -/
inductive Round
  | first
  | second (reclaimer : LockOwner)
  deriving DecidableEq, Repr

/-- The calls of `removeStateLockIfMatches`: of the stale lock, of the reclaimer
with the lock that was acquired meanwhile, and of the lock itself. -/
inductive Removal
  | stale (reclaimer : LockOwner) (expected : StateLockSnapshot)
  | reclaimer (reclaimer : LockOwner) (acquired : Option LockOwner)
  | release (owner : LockOwner)
  deriving DecidableEq, Repr

def Removal.path : Removal → LockPath
  | .reclaimer _ _ => .reclaim
  | .stale _ _ | .release _ => .lock

def Removal.expected : Removal → StateLockSnapshot
  | .stale _ current => current
  | .reclaimer held _ => held.snapshot
  | .release owner => owner.snapshot

structure Info where
  id : FileId
  mtime : ℕ
  deriving DecidableEq, Repr

/- The next call of a process, with the values its continuation still needs. -/
inductive Pc
  | idle
  -- createOwnedStateLock
  | create (site : Site)
  | stat (site : Site) (owner : LockOwner)
  | write (site : Site) (owner : LockOwner) (torn : Bool)
  -- staleStateLock
  | lstat (round : Round)
  | read (round : Round) (info : Info)
  | kill (round : Round) (info : Info) (pid : ℕ) (nonce : Option ℕ)
  | clock (round : Round) (info : Info) (nonce : Option ℕ)
  -- releaseOwnedStateLock and removeStateLockIfMatches
  | close (removal : Removal)
  | compare (removal : Removal)
  | compareNonce (removal : Removal) (nonce : ℕ)
  | unlink (removal : Removal)
  -- between the return of acquireStateLock and releaseOwnedStateLock
  | holding (owner : LockOwner)
  deriving DecidableEq, Repr

/- A process identifier is given out once: a dead process stays dead. -/
inductive Proc
  | unborn
  | alive (pc : Pc)
  | dead
  deriving DecidableEq, Repr

def Proc.isAlive : Proc → Bool
  | .alive _ => true
  | .unborn | .dead => false

structure LockState where
  now : ℕ
  file : LockPath → Option LockFile
  procs : ℕ → Proc
  /-- open handles: the process and the file -/
  handles : List (ℕ × FileId)
  /-- the nonces drawn so far and who drew them -/
  drawn : List (ℕ × ℕ)
  nextSerial : ℕ

/- What the system answers to a call: the identity a new file gets, the random
bytes of a nonce, and whether a write stops halfway. -/
structure Draw where
  id : FileId
  nonce : ℕ
  torn : Bool
  deriving DecidableEq, Repr

def gracePeriod : ℕ := 30000

namespace LockState

def goto (s : LockState) (pid : ℕ) (pc : Pc) : LockState :=
  { s with procs := Function.update s.procs pid (.alive pc) }

def setFile (s : LockState) (path : LockPath) (file : Option LockFile) : LockState :=
  { s with file := Function.update s.file path file }

/-- `kill(pid, 0)`. -/
def processAlive (s : LockState) (pid : ℕ) : Bool := (s.procs pid).isAlive

/-- Two files that exist at the same time, also by an open handle only, differ
in their identity. -/
def unusedId (s : LockState) (id : FileId) : Bool :=
  (s.file .lock).all (fun f => f.id != id) && (s.file .reclaim).all (fun f => f.id != id) &&
    s.handles.all (fun h => h.2 != id)

/-- The random bytes of a nonce were not drawn before. -/
def unusedNonce (s : LockState) (nonce : ℕ) : Bool := s.drawn.all fun d => d.1 != nonce

/-- `createOwnedStateLock` failed with EEXIST. -/
def existing : Site → Pc
  | .first => .lstat .first
  | .retry => .idle
  | .reclaimer => .idle
  | .reclaimed reclaimer => .close (.reclaimer reclaimer none)

/-- `createOwnedStateLock` returned an owner. -/
def created : Site → LockOwner → Pc
  | .first, owner => .holding owner
  | .retry, owner => .holding owner
  | .reclaimer, owner => .lstat (.second owner)
  | .reclaimed reclaimer, owner => .close (.reclaimer reclaimer (some owner))

/-- `staleStateLock` returned undefined. -/
def missing : Round → Pc
  | .first => .create .retry
  | .second reclaimer => .create (.reclaimed reclaimer)

/-- `staleStateLock` returned a snapshot. -/
def stale : Round → StateLockSnapshot → Pc
  | .first, _ => .create .reclaimer
  | .second reclaimer, current => .compare (.stale reclaimer current)

/-- `staleStateLock` threw. -/
def refused : Round → Pc
  | .first => .idle
  | .second reclaimer => .close (.reclaimer reclaimer none)

/-- `removeStateLockIfMatches` returned. -/
def removed : Removal → Bool → Pc
  | .stale reclaimer _, true => .create (.reclaimed reclaimer)
  | .stale reclaimer _, false => .close (.reclaimer reclaimer none)
  | .reclaimer _ (some owner), _ => .holding owner
  | .reclaimer _ none, _ => .idle
  | .release _, _ => .idle

/-- The exclusive create. -/
def createCall (s : LockState) (pid : ℕ) (site : Site) (draw : Draw) : Option LockState :=
  match s.file site.path with
  | some _ => some (s.goto pid (existing site))
  | none =>
    if s.unusedId draw.id && s.unusedNonce draw.nonce then
      let owner : LockOwner := ⟨draw.nonce,draw.id,s.nextSerial⟩
      let file : LockFile := ⟨draw.id,s.now,.empty,pid,s.now,s.nextSerial⟩
      some { (s.setFile site.path (some file)).goto pid (.stat site owner) with
        handles := (pid,draw.id)::s.handles
        drawn := (draw.nonce,pid)::s.drawn
        nextSerial := s.nextSerial+1 }
    else none

/-- A write goes to the file of the handle, which may have lost its name. -/
def writeTo (s : LockState) (path : LockPath) (owner : LockOwner) (text : LockText) : LockState :=
  match s.file path with
  | some f =>
    if f.serial=owner.serial then s.setFile path (some { f with text := text, mtime := s.now })
    else s
  | none => s

def writeCall (s : LockState) (pid : ℕ) (site : Site) (owner : LockOwner) (torn : Bool)
    (draw : Draw) : LockState :=
  if draw.torn && !torn then
    (s.writeTo site.path owner .torn).goto pid (.write site owner true)
  else
    (s.writeTo site.path owner (.record (some pid) (some owner.nonce))).goto pid (created site owner)

def readCall (s : LockState) (pid : ℕ) (round : Round) (info : Info) : LockState :=
  match s.file .lock with
  | none => s.goto pid (missing round)
  | some f =>
    match f.text with
    | .empty | .torn => s.goto pid (.clock round info none)
    | .record (some owner) nonce => s.goto pid (.kill round info owner nonce)
    | .record none nonce => s.goto pid (.clock round info nonce)

def compareCall (s : LockState) (pid : ℕ) (removal : Removal) : LockState :=
  match s.file removal.path with
  | none => s.goto pid (removed removal false)
  | some f =>
    if f.id≠removal.expected.id then s.goto pid (removed removal false)
    else match removal.expected.nonce with
      | none => s.goto pid (.unlink removal)
      | some nonce => s.goto pid (.compareNonce removal nonce)

def compareNonceCall (s : LockState) (pid : ℕ) (removal : Removal) (nonce : ℕ) : LockState :=
  match (s.file removal.path).map LockFile.text with
  | some (.record _ (some found)) =>
    if found=nonce then s.goto pid (.unlink removal) else s.goto pid (removed removal false)
  | _ => s.goto pid (removed removal false)

/-- The next call of a live process. -/
def call (s : LockState) (pid : ℕ) (draw : Draw) : Option LockState :=
  match s.procs pid with
  | .alive .idle => some (s.goto pid (.create .first))
  | .alive (.create site) => s.createCall pid site draw
  | .alive (.stat site owner) => some (s.goto pid (.write site owner false))
  | .alive (.write site owner torn) => some (s.writeCall pid site owner torn draw)
  | .alive (.lstat round) =>
    match s.file .lock with
    | none => some (s.goto pid (missing round))
    | some f => some (s.goto pid (.read round ⟨f.id,f.mtime⟩))
  | .alive (.read round info) => some (s.readCall pid round info)
  | .alive (.kill round info owner nonce) =>
    if s.processAlive owner then some (s.goto pid (refused round))
    else some (s.goto pid (stale round ⟨info.id,nonce⟩))
  | .alive (.clock round info nonce) =>
    if s.now - info.mtime<gracePeriod then some (s.goto pid (refused round))
    else some (s.goto pid (stale round ⟨info.id,nonce⟩))
  | .alive (.close removal) =>
    some { s.goto pid (.compare removal) with
      handles := s.handles.erase (pid,removal.expected.id) }
  | .alive (.compare removal) => some (s.compareCall pid removal)
  | .alive (.compareNonce removal nonce) => some (s.compareNonceCall pid removal nonce)
  | .alive (.unlink removal) =>
    some ((s.setFile removal.path none).goto pid (removed removal true))
  | .alive (.holding owner) => some (s.goto pid (.close (.release owner)))
  | .unborn | .dead => none

end LockState

inductive LockAction
  | tick (ms : ℕ)
  | spawn (pid : ℕ)
  | crash (pid : ℕ)
  | call (pid : ℕ) (draw : Draw)
  deriving DecidableEq, Repr

/- A file at cli.lock whose creator is alive gets its record within the grace
period: time does not pass beyond it before the record is written. -/
def punctual (s : LockState) (now : ℕ) : Bool :=
  match s.file .lock with
  | some f =>
    match f.text with
    | .record _ _ => true
    | .empty | .torn => !s.processAlive f.creator || decide (now - f.created<gracePeriod)
  | none => true

def lockStep (s : LockState) : LockAction → Option LockState
  | .tick ms => if punctual s (s.now+ms) then some { s with now := s.now+ms } else none
  | .spawn pid => if 0<pid ∧ s.procs pid=.unborn then some (s.goto pid .idle) else none
  | .crash pid =>
    if s.processAlive pid then
      some { s with
        procs := Function.update s.procs pid .dead
        handles := s.handles.filter fun h => h.1 != pid }
    else none
  | .call pid draw => s.call pid draw

def LockState.start (now : ℕ) : LockState :=
  ⟨now,fun _ => none,fun _ => .unborn,[],[],0⟩

def lockSystem : TransitionSystem LockState LockAction where
  initial s := ∃ now, s=.start now
  step := lockStep

def calls (pid : ℕ) (id : FileId) (nonce n : ℕ) : List LockAction :=
  List.replicate n (.call pid ⟨id,nonce,false⟩)

end Qubicl.Cli
