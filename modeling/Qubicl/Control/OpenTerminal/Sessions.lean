import Qubicl.Control.Lease.Manager
import Qubicl.Core.GatewayAccess
import Qubicl.Foundation.StringMap
import Qubicl.Foundation.Transition

/-!
# Sessions of compatibility requests (packages/control/src/open-terminal.ts:90-102, 293-324, 697-801, 963-966)

The working directories, the leases and the cached search results of the requests. A request goes on at any moment, and what the
executor and the file system answer is part of the action. Every route is a sequence of these moments.
-/

namespace Qubicl.Control.OpenTerminal.Sessions
open Foundation List

def maxSessionCwds : ℕ := 256

/-- One hour, in milliseconds. -/
def sessionCwdTtl : ℤ := 60*60*1000

/-- A request with the ID of its credential and the header `x-session-id`. -/
structure Request where
  number : ℕ
  client : String
  sessionId : Option String
  deriving DecidableEq

def sessionKey (request : Request) : String :=
  match request.sessionId with
  | some value => if Core.lengthWithin 1 256 value then value else "default"
  | none => "default"

structure SessionCwd where
  path : String
  touchedAt : ℤ

/-- `acquiring` is pending while requests, known by their numbers, wait for it. -/
structure LeaseState where
  proof : Option LeaseProof
  waiting : List ℕ
  touchedAt : ℤ

/-- What the key of the cache is the JSON of. -/
structure MatchKey where
  session : String
  target : String
  query : String
  showHidden : Bool
  deriving DecidableEq

/-- No code reads `credential`, that of the request which made the search. -/
structure CachedMatches (α : Type) where
  expires : ℤ
  proof : LeaseProof
  found : α
  credential : String

/-- A search that is under way. -/
structure Search where
  request : Request
  key : MatchKey
  proof : LeaseProof
  now : ℤ
  generation : ℕ
  deriving DecidableEq

inductive Event
  | resolved (request : Request) (cwd : String)
  | used (client : String) (number : ℕ) (proof : LeaseProof)
  deriving DecidableEq

/-- `issued`, `log` and `served` are read by no code: the proofs with the credentials they were given to, the working
directories and proofs that requests used, and the credentials of the cached results that they were sent. -/
structure Compatibility (α : Type) where
  sessionCwds : List (String × SessionCwd)
  leases : List (String × LeaseState)
  matchCache : List (MatchKey × CachedMatches α)
  fileGeneration : ℕ
  searches : List Search
  issued : List (LeaseProof × String)
  log : List Event
  served : List (Request × String)

def start (α : Type) : Compatibility α := ⟨[],[],[],0,[],[],[],[]⟩

inductive Action (α : Type)
  | arrive (request : Request) (method : String)
  | cwdFor (request : Request) (now : ℤ)
  | setCwd (request : Request) (path : String) (now : ℤ)
  | ensureLease (request : Request) (now : ℤ)
  | acquired (client : String) (reply : Option LeaseProof)
  | lost (request : Request) (proof : LeaseProof)
  | matchFiles (request : Request) (proof : LeaseProof) (target query : String) (showHidden : Bool) (offset : ℕ) (now : ℤ)
  | searched (search : Search) (found : α) (verified : Bool)

variable {α : Type}

def Action.client : Action α → String
  | .arrive request _ => request.client
  | .cwdFor request _ => request.client
  | .setCwd request _ _ => request.client
  | .ensureLease request _ => request.client
  | .acquired client _ => client
  | .lost request _ => request.client
  | .matchFiles request _ _ _ _ _ _ => request.client
  | .searched search _ _ => search.request.client

def Event.client : Event → String
  | .resolved request _ => request.client
  | .used client _ _ => client

def pruneSessionCwds (now : ℤ) (cwds : List (String × SessionCwd)) : List (String × SessionCwd) :=
  cwds.filter fun entry => ¬ entry.2.touchedAt<now - sessionCwdTtl

/-- The entry that was touched first, the earliest of equal ones. -/
def oldest {β : Type} (touchedAt : β → ℤ) (entries : List (String × β)) : Option (String × β) :=
  entries.foldl (fun first entry => match first with
    | some old => if touchedAt entry.2<touchedAt old.2 then some entry else some old
    | none => some entry) none

namespace Compatibility

def cwdFor (w : Compatibility α) (home : String) (request : Request) (now : ℤ) : Compatibility α :=
  let cwds:=pruneSessionCwds now w.sessionCwds
  let found:=cwds.lookup (sessionKey request)
  { w with
    sessionCwds := found.elim cwds fun cwd => mapSet (sessionKey request) { cwd with touchedAt := now } cwds
    log := .resolved request (found.elim home SessionCwd.path)::w.log }

def setCwd (w : Compatibility α) (request : Request) (path : String) (now : ℤ) : Compatibility α :=
  let cwds:=pruneSessionCwds now w.sessionCwds
  let kept :=
    if (cwds.lookup (sessionKey request)).isNone ∧ maxSessionCwds≤cwds.length then
      match oldest SessionCwd.touchedAt cwds with
      | some entry => mapDelete entry.1 cwds
      | none => cwds
    else cwds
  { w with sessionCwds := mapSet (sessionKey request) ⟨path,now⟩ kept }

/-- `none` is the error `session_limit`. -/
def currentLeaseState (w : Compatibility α) (client : String) (now : ℤ) : Option (List (String × LeaseState) × LeaseState) :=
  match w.leases.lookup client with
  | some state => some (w.leases,state)
  | none =>
    let state : LeaseState := ⟨none,[],now⟩
    if maxSessionCwds≤w.leases.length then
      match oldest LeaseState.touchedAt (w.leases.filter fun entry => entry.2.waiting=[] ∧ entry.2.proof=none) with
      | some entry => some (mapDelete entry.1 w.leases,state)
      | none => none
    else some (w.leases,state)

def setLease (w : Compatibility α) (client : String) (state : LeaseState) (events : List Event) : Compatibility α :=
  { w with leases := mapSet client state w.leases, log := events++w.log }

def ensureLease (w : Compatibility α) (request : Request) (now : ℤ) : Compatibility α :=
  match w.currentLeaseState request.client now with
  | none => w
  | some (leases,state) =>
    match state.proof with
    | some proof =>
      { w with leases := leases }.setLease request.client { state with touchedAt := now } [.used request.client request.number proof]
    | none =>
      { w with leases := leases }.setLease request.client
        { state with touchedAt := now, waiting := request.number::state.waiting } []

/-- The promise is settled: those that wait for it use the proof. The lease manager gives no proof twice. -/
def acquired (w : Compatibility α) (client : String) (reply : Option LeaseProof) : Option (Compatibility α) :=
  match w.leases.lookup client with
  | none => none
  | some state =>
    match reply with
    | none => some (w.setLease client { state with waiting := [] } [])
    | some proof =>
      if proof ∈ w.issued.map Prod.fst then none
      else some { w.setLease client { state with proof := some proof, waiting := [] } (state.waiting.map (Event.used client · proof)) with
        issued := (proof,client)::w.issued }

def lost (w : Compatibility α) (client : String) (proof : LeaseProof) : Compatibility α :=
  match w.leases.lookup client with
  | none => w
  | some state => if state.proof=some proof then w.setLease client { state with proof := none } [] else w

/-- With the lease verified, from the key of the cache on. Where nothing is cached for the proof, a search begins. -/
def matchFiles (w : Compatibility α) (request : Request) (proof : LeaseProof) (target query : String) (showHidden : Bool)
    (offset : ℕ) (now : ℤ) : Compatibility α :=
  let key : MatchKey := ⟨sessionKey request,target,query,showHidden⟩
  let cache:=w.matchCache.filter fun entry => ¬ entry.2.expires≤now
  let begun:={ w with matchCache := cache, searches := ⟨request,key,proof,now,w.fileGeneration⟩::w.searches }
  match if 0<offset then cache.find? fun entry => entry.1=key else none with
  | some (_,cached) =>
    if cached.proof=proof then { w with matchCache := cache, served := (request,cached.credential)::w.served } else begun
  | none => begun

/-- The search is done; `verified` says whether the lease still is. -/
def searched (w : Compatibility α) (search : Search) (found : α) (verified : Bool) : Compatibility α :=
  if search ∈ w.searches then
    let cached : CachedMatches α := ⟨search.now+15000,search.proof,found,search.request.client⟩
    let room:=if 4≤w.matchCache.length then w.matchCache.tail else w.matchCache
    { w with
      searches := w.searches.erase search
      matchCache :=
        if verified ∧ search.generation=w.fileGeneration then
          if room.any fun entry => entry.1=search.key then
            room.map fun entry => if entry.1=search.key then (search.key,cached) else entry
          else room++[(search.key,cached)]
        else w.matchCache }
  else w

def step (home : String) (w : Compatibility α) : Action α → Option (Compatibility α)
  | .arrive _ method =>
    some (if method = "GET" then w else { w with matchCache := [], fileGeneration := w.fileGeneration+1 })
  | .cwdFor request now => some (w.cwdFor home request now)
  | .setCwd request path now => some (w.setCwd request path now)
  | .ensureLease request now => some (w.ensureLease request now)
  | .acquired client reply => w.acquired client reply
  | .lost request proof => if Event.used request.client request.number proof ∈ w.log then some (w.lost request.client proof) else none
  | .matchFiles request proof target query showHidden offset now =>
    if Event.used request.client request.number proof ∈ w.log then some (w.matchFiles request proof target query showHidden offset now) else none
  | .searched search found verified => some (w.searched search found verified)

end Compatibility

def sessionSystem (α : Type) (home : String) : TransitionSystem (Compatibility α) (Action α) where
  initial w := w=start α
  step := Compatibility.step home

section Maps
variable {β : Type} (p : String → Bool) (key : String) (value : β) (map : List (String × β))

theorem lookup_filter_key : (map.filter fun entry => p entry.1).lookup key=if p key then map.lookup key else none := by
  induction map with
  | nil => simp
  | cons entry map ih =>
    obtain ⟨k,v⟩ := entry
    by_cases hk : key=k
    · subst hk
      by_cases hp : p key=true
      · simp [hp]
      · simpa [hp] using ih
    · by_cases hp : p k=true
      · simpa [filter_cons,hp,lookup_cons,beq_eq_false_iff_ne.2 hk] using ih
      · simpa [filter_cons,hp,lookup_cons,beq_eq_false_iff_ne.2 hk] using ih

theorem filter_mapSet : (mapSet key value map).filter (fun entry => p entry.1) =
    if p key then mapSet key value (map.filter fun entry => p entry.1) else map.filter fun entry => p entry.1 := by
  induction map with
  | nil =>
    by_cases hp : p key=true
    · simp [mapSet,hp]
    · simp [mapSet,hp]
  | cons entry map ih =>
    obtain ⟨k,v⟩ := entry
    conv_lhs => unfold mapSet
    by_cases hk : k=key
    · subst hk
      by_cases hp : p k=true
      · simp [hp,mapSet]
      · simp [hp]
    · rw [if_neg hk,filter_cons,filter_cons,ih]
      by_cases hp : p key=true
      · by_cases hpk : p k=true
        · simp [hp,hpk,mapSet,hk]
        · simp [hp,hpk]
      · simp [hp]

end Maps

/-- Room for one more session, and none that expires. -/
structure Roomy (w : Compatibility α) (action : Action α) : Prop where
  sessions : w.sessionCwds.length < maxSessionCwds
  clients : w.leases.length < maxSessionCwds
  lasting : ∀ request now, (action=.cwdFor request now ∨ ∃ path, action=.setCwd request path now) →
    pruneSessionCwds now w.sessionCwds=w.sessionCwds

/-- The session that an action reads or sets. -/
def Action.key : Action α → Option String
  | .cwdFor request _ => some (sessionKey request)
  | .setCwd request _ _ => some (sessionKey request)
  | _ => none

def Action.sets : Action α → Bool
  | .setCwd _ _ _ => true
  | _ => false

/-- No credential uses a session in which another one sets the working directory. -/
def Apart (actions : List (Action α)) : Prop :=
  ∀ a ∈ actions, ∀ b ∈ actions, a.sets=true → a.client≠b.client → a.key≠b.key

variable {events : List Event} {request : Request} {state : LeaseState}

section Purge
variable {home client : String} {all : List (Action α)} {w w' t : Compatibility α} {action : Action α}

/-- Whether the sessions with a key are those of a client. -/
def hidden (all : List (Action α)) (client key : String) : Bool :=
  all.any fun action => action.sets && action.client == client && action.key == some key

def Claimed (all : List (Action α)) (w : Compatibility α) : Prop :=
  ∀ entry ∈ w.sessionCwds, ∃ a ∈ all, a.sets=true ∧ a.key=some entry.1

/-- The second state is the first one without what the client brought in, as far as the others can tell. -/
structure Purged (all : List (Action α)) (client : String) (w w' : Compatibility α) : Prop where
  cwds : w'.sessionCwds=w.sessionCwds.filter fun entry => !hidden all client entry.1
  leases : w'.leases=w.leases.filter fun entry => entry.1 != client
  issued : w'.issued=w.issued.filter fun entry => entry.2 != client
  log : w'.log=w.log.filter fun event => event.client != client

theorem hidden_iff (hapart : Apart all) (haction : action ∈ all) {key : String} (hkey : action.key=some key)
    (hclaimed : ∃ a ∈ all, a.sets=true ∧ a.key=some key) : hidden all client key=true ↔ action.client=client := by
  obtain ⟨a,ha,hset,hake⟩ := hclaimed
  have hown {b : Action α} (hb : b ∈ all) (hbse : b.sets=true) (hbke : b.key=some key) : b.client=action.client := by
    by_contra hne
    exact hapart b hb action haction hbse hne (hbke.trans hkey.symm)
  simp only [hidden,any_eq_true,Bool.and_eq_true,beq_iff_eq]
  constructor
  · rintro ⟨b,hb,⟨hbse,rfl⟩,hbke⟩
    exact (hown hb hbse hbke).symm
  · intro hcli
    exact ⟨a,ha,⟨hset,(hown ha hset hake).trans hcli⟩,hake⟩

theorem cwdFor_roomy {now : ℤ} (h : pruneSessionCwds now w.sessionCwds=w.sessionCwds) :
    w.cwdFor home request now =
      let found:=w.sessionCwds.lookup (sessionKey request)
      { w with
        sessionCwds := found.elim w.sessionCwds fun cwd => mapSet (sessionKey request) { cwd with touchedAt := now } w.sessionCwds
        log := .resolved request (found.elim home SessionCwd.path)::w.log } := by
  unfold Compatibility.cwdFor
  rw [h]

theorem setCwd_roomy {path : String} {now : ℤ} (h : Roomy w (.setCwd request path now)) :
    w.setCwd request path now = { w with sessionCwds := mapSet (sessionKey request) ⟨path,now⟩ w.sessionCwds } := by
  unfold Compatibility.setCwd
  dsimp only
  rw [h.lasting request now (.inr ⟨path,rfl⟩),if_neg fun hful => Nat.not_le.2 h.sessions hful.2]

theorem ensureLease_roomy {now : ℤ} (h : w.leases.length < maxSessionCwds) :
    w.ensureLease request now =
      let state:=(w.leases.lookup request.client).getD ⟨none,[],now⟩
      match state.proof with
      | some proof => w.setLease request.client { state with touchedAt := now } [.used request.client request.number proof]
      | none => w.setLease request.client { state with touchedAt := now, waiting := request.number::state.waiting } [] := by
  unfold Compatibility.ensureLease Compatibility.currentLeaseState
  cases w.leases.lookup request.client with
  | none =>
    dsimp only
    rw [if_neg (Nat.not_le.2 h)]
    rfl
  | some state => rfl

theorem acquired_cases {key : String} {reply : Option LeaseProof} (h : w.acquired key reply=some t) :
    ∃ state, w.leases.lookup key=some state ∧
      ((reply=none ∧ t=w.setLease key { state with waiting := [] } []) ∨
        ∃ proof, reply=some proof ∧ proof ∉ w.issued.map Prod.fst ∧
          t = { w.setLease key { state with proof := some proof, waiting := [] } (state.waiting.map (Event.used key · proof)) with
            issued := (proof,key)::w.issued }) := by
  unfold Compatibility.acquired at h
  cases hsta : w.leases.lookup key with
  | none =>
    rw [hsta] at h
    cases h
  | some state =>
    rw [hsta] at h
    refine ⟨state,rfl,?_⟩
    cases reply with
    | none => exact .inl ⟨rfl,(Option.some.inj h).symm⟩
    | some proof =>
      obtain ⟨hfre,heq⟩ := Option.ite_none_left_eq_some.1 h
      exact .inr ⟨proof,rfl,hfre,(Option.some.inj heq).symm⟩

/-- What the moments of searches leave as it is. -/
structure SameSessions (w t : Compatibility α) : Prop where
  cwds : t.sessionCwds=w.sessionCwds
  leases : t.leases=w.leases
  issued : t.issued=w.issued
  log : t.log=w.log

theorem sameSessions_arrive (w : Compatibility α) (method : String) :
    SameSessions w (if method = "GET" then w else { w with matchCache := [], fileGeneration := w.fileGeneration+1 }) := by
  split
  · exact ⟨rfl,rfl,rfl,rfl⟩
  · exact ⟨rfl,rfl,rfl,rfl⟩

theorem sameSessions_matchFiles (w : Compatibility α) (request : Request) (proof : LeaseProof) (target query : String)
    (showHidden : Bool) (offset : ℕ) (now : ℤ) :
    SameSessions w (w.matchFiles request proof target query showHidden offset now) := by
  unfold Compatibility.matchFiles
  dsimp only
  generalize (if 0<offset then _ else none : Option (MatchKey × CachedMatches α))=cached
  cases cached with
  | none => exact ⟨rfl,rfl,rfl,rfl⟩
  | some entry =>
    dsimp only
    split
    · exact ⟨rfl,rfl,rfl,rfl⟩
    · exact ⟨rfl,rfl,rfl,rfl⟩

theorem sameSessions_searched (w : Compatibility α) (search : Search) (found : α) (verified : Bool) :
    SameSessions w (w.searched search found verified) := by
  unfold Compatibility.searched
  split
  · exact ⟨rfl,rfl,rfl,rfl⟩
  · exact ⟨rfl,rfl,rfl,rfl⟩

theorem Purged.same (h : Purged all client w w') {t' : Compatibility α} (ht : SameSessions w t) (ht' : SameSessions w' t') :
    Purged all client t t' :=
  ⟨by rw [ht'.cwds,ht.cwds,h.cwds],by rw [ht'.leases,ht.leases,h.leases],by rw [ht'.issued,ht.issued,h.issued],
    by rw [ht'.log,ht.log,h.log]⟩

/-- What a moment does to the sessions: it sets the one of its key, and a lease of its client. -/
structure Moved (w : Compatibility α) (action : Action α) (t : Compatibility α) : Prop where
  cwds : t.sessionCwds=w.sessionCwds ∨ ∃ key cwd, t.sessionCwds=mapSet key cwd w.sessionCwds ∧ action.key=some key ∧
    (action.sets=true ∨ ∃ found, w.sessionCwds.lookup key=some found)
  leases : t.leases=w.leases ∨ ∃ state, t.leases=mapSet action.client state w.leases
  issued : ∃ new, t.issued=new++w.issued ∧ ∀ entry ∈ new, entry.2=action.client
  log : ∃ new, t.log=new++w.log ∧ ∀ event ∈ new, event.client=action.client

theorem SameSessions.moved (h : SameSessions w t) : Moved w action t :=
  ⟨.inl h.cwds,.inl h.leases,⟨[],h.issued,forall_mem_nil _⟩,[],h.log,forall_mem_nil _⟩

theorem moved_setLease (heve : ∀ event ∈ events, event.client=action.client) :
    Moved w action (w.setLease action.client state events) :=
  ⟨.inl rfl,.inr ⟨state,rfl⟩,⟨[],rfl,forall_mem_nil _⟩,events,rfl,heve⟩

theorem step_moved (hroomy : Roomy w action) (hstep : w.step home action=some t) : Moved w action t := by
  cases action with
  | arrive request method =>
    obtain rfl := Option.some.inj hstep
    exact (sameSessions_arrive w method).moved
  | cwdFor request now =>
    obtain rfl := Option.some.inj hstep
    rw [cwdFor_roomy (hroomy.lasting request now (.inl rfl))]
    refine ⟨?_,.inl rfl,⟨[],rfl,forall_mem_nil _⟩,[_],rfl,forall_mem_singleton.2 rfl⟩
    dsimp only
    cases hfou : w.sessionCwds.lookup (sessionKey request) with
    | none => exact .inl rfl
    | some found => exact .inr ⟨_,_,rfl,rfl,.inr ⟨found,hfou⟩⟩
  | setCwd request path now =>
    obtain rfl := Option.some.inj hstep
    rw [setCwd_roomy hroomy]
    exact ⟨.inr ⟨_,_,rfl,rfl,.inl rfl⟩,.inl rfl,⟨[],rfl,forall_mem_nil _⟩,[],rfl,forall_mem_nil _⟩
  | ensureLease request now =>
    obtain rfl := Option.some.inj hstep
    rw [ensureLease_roomy hroomy.clients]
    dsimp only
    split
    · exact moved_setLease (forall_mem_singleton.2 rfl)
    · exact moved_setLease (forall_mem_nil _)
  | acquired key reply =>
    obtain ⟨state,-,⟨-,rfl⟩ | ⟨proof,-,-,rfl⟩⟩ := acquired_cases hstep
    · exact moved_setLease (forall_mem_nil _)
    · refine ⟨.inl rfl,.inr ⟨_,rfl⟩,⟨[_],rfl,forall_mem_singleton.2 rfl⟩,_,rfl,fun event heve => ?_⟩
      obtain ⟨_,-,rfl⟩ := mem_map.1 heve
      rfl
  | lost request proof =>
    obtain ⟨-,heq⟩ := Option.ite_none_right_eq_some.1 hstep
    obtain rfl := Option.some.inj heq
    unfold Compatibility.lost
    split
    · exact SameSessions.moved ⟨rfl,rfl,rfl,rfl⟩
    · split
      · exact moved_setLease (forall_mem_nil _)
      · exact SameSessions.moved ⟨rfl,rfl,rfl,rfl⟩
  | matchFiles request proof target query showHidden offset now =>
    obtain ⟨-,heq⟩ := Option.ite_none_right_eq_some.1 hstep
    obtain rfl := Option.some.inj heq
    exact (sameSessions_matchFiles w request proof target query showHidden offset now).moved
  | searched search found verified =>
    obtain rfl := Option.some.inj hstep
    exact (sameSessions_searched w search found verified).moved

theorem Purged.setLease {key : String} (h : Purged all client w w') (hevs : ∀ event ∈ events, event.client=key)
    (hkey : key≠client) : Purged all client (w.setLease key state events) (w'.setLease key state events) := by
  refine ⟨h.cwds,?_,h.issued,?_⟩
  · rw [Compatibility.setLease,Compatibility.setLease,filter_mapSet (· != client),if_pos (by simpa using hkey),h.leases]
  · have hall : events.filter (fun event => event.client != client)=events :=
      filter_eq_self.2 fun event heve => by simpa [hevs event heve] using hkey
    rw [Compatibility.setLease,Compatibility.setLease,filter_append,hall,h.log]

theorem claimed_key (haction : action ∈ all) (h : Claimed all w) {key : String} (hkey : action.key=some key)
    (hset : action.sets=true ∨ ∃ found, w.sessionCwds.lookup key=some found) : ∃ a ∈ all, a.sets=true ∧ a.key=some key := by
  rcases hset with hses | ⟨found,hfou⟩
  · exact ⟨action,haction,hses,hkey⟩
  · exact h _ (mem_of_lookup hfou)

theorem claimed_step (haction : action ∈ all) (h : Claimed all w) (hroomy : Roomy w action)
    (hstep : w.step home action=some t) : Claimed all t := by
  unfold Claimed
  rcases (step_moved hroomy hstep).cwds with hsam | ⟨key,cwd,hset,hkey,hfou⟩
  · rwa [hsam]
  · rw [hset]
    intro entry hent
    rcases mem_mapSet hent with rfl | hold
    · exact claimed_key haction h hkey hfou
    · exact h entry hold

theorem Purged.roomy (h : Purged all client w w') (hroomy : Roomy w action) : Roomy w' action where
  sessions := by
    rw [h.cwds]
    exact Nat.lt_of_le_of_lt (length_filter_le _ _) hroomy.sessions
  clients := by
    rw [h.leases]
    exact Nat.lt_of_le_of_lt (length_filter_le _ _) hroomy.clients
  lasting := by
    intro request now haction
    have hlas:=filter_eq_self.1 (hroomy.lasting request now haction)
    refine filter_eq_self.2 fun entry hent => hlas entry ?_
    rw [h.cwds] at hent
    exact (mem_filter.1 hent).1

variable (hapart : Apart all) (haction : action ∈ all) (hclaimed : Claimed all w) (hroomy : Roomy w action)
  (h : Purged all client w w') (hstep : w.step home action=some t)
include hapart haction hclaimed hroomy h hstep

theorem Purged.unseen (hcli : action.client=client) : Purged all client t w' := by
  obtain ⟨hcwd,hlea,⟨proofs,hiss,hpro⟩,events,hlog,hevs⟩ := step_moved hroomy hstep
  constructor
  · rcases hcwd with hsam | ⟨key,cwd,hset,hkey,hfou⟩
    · rw [hsam,h.cwds]
    · have hhid:=(hidden_iff hapart haction hkey (claimed_key haction hclaimed hkey hfou)).2 hcli
      rw [hset,filter_mapSet (fun key => !hidden all client key),if_neg (by rw [hhid]; decide),h.cwds]
  · rcases hlea with hsam | ⟨state,hset⟩
    · rw [hsam,h.leases]
    · rw [hset,filter_mapSet (· != client),if_neg (by simp [hcli]),h.leases]
  · have hnon : proofs.filter (fun entry => entry.2 != client)=[] :=
      filter_eq_nil_iff.2 fun entry hent => by simp [hpro entry hent,hcli]
    rw [hiss,filter_append,hnon,nil_append,h.issued]
  · have hnon : events.filter (fun event => event.client != client)=[] :=
      filter_eq_nil_iff.2 fun event heve => by simp [hevs event heve,hcli]
    rw [hlog,filter_append,hnon,nil_append,h.log]

/-- A moment of another client is the same without it. -/
theorem Purged.mirrored (hcli : action.client≠client) : ∃ t', w'.step home action=some t' ∧ Purged all client t t' := by
  have hroomy':=h.roomy hroomy
  have hloo : w'.leases.lookup action.client=w.leases.lookup action.client := by
    rw [h.leases,lookup_filter_key (· != client),if_pos (by simpa using hcli)]
  have huse {number : ℕ} {proof : LeaseProof} (hmem : Event.used action.client number proof ∈ w.log) :
      Event.used action.client number proof ∈ w'.log := by
    rw [h.log]
    exact mem_filter.2 ⟨hmem,by simpa [Event.client] using hcli⟩
  have hvis {key : String} (hkey : action.key=some key) (hset : ∃ a ∈ all, a.sets=true ∧ a.key=some key) :
      (!hidden all client key)=true := by
    have hnot : ¬ hidden all client key=true := (hidden_iff hapart haction hkey hset).not.2 hcli
    simpa using hnot
  cases action with
  | arrive request method =>
    obtain rfl := Option.some.inj hstep
    exact ⟨_,rfl,h.same (sameSessions_arrive w method) (sameSessions_arrive w' method)⟩
  | cwdFor request now =>
    obtain rfl := Option.some.inj hstep
    refine ⟨_,rfl,?_⟩
    rw [cwdFor_roomy (hroomy.lasting request now (.inl rfl)),cwdFor_roomy (hroomy'.lasting request now (.inl rfl))]
    have heve {cwd : String} : Event.resolved request cwd::w'.log =
        (Event.resolved request cwd::w.log).filter fun event => event.client != client := by
      rw [h.log]
      exact (filter_cons_of_pos (by simpa [Event.client,Action.client] using hcli)).symm
    cases hfou : w.sessionCwds.lookup (sessionKey request) with
    | none =>
      have hfou' : w'.sessionCwds.lookup (sessionKey request)=none := by
        rw [h.cwds,lookup_filter_key (fun key => !hidden all client key),hfou,ite_self]
      dsimp only
      rw [hfou']
      exact ⟨h.cwds,h.leases,h.issued,heve⟩
    | some found =>
      have hsho:=hvis rfl (hclaimed _ (mem_of_lookup hfou))
      have hfou' : w'.sessionCwds.lookup (sessionKey request)=some found := by
        rw [h.cwds,lookup_filter_key (fun key => !hidden all client key),hfou,if_pos hsho]
      dsimp only
      rw [hfou']
      refine ⟨?_,h.leases,h.issued,heve⟩
      dsimp only [Option.elim_some]
      rw [filter_mapSet (fun key => !hidden all client key),if_pos hsho,h.cwds]
  | setCwd request path now =>
    obtain rfl := Option.some.inj hstep
    refine ⟨_,rfl,?_⟩
    rw [setCwd_roomy hroomy,setCwd_roomy hroomy']
    refine ⟨?_,h.leases,h.issued,h.log⟩
    dsimp only
    rw [filter_mapSet (fun key => !hidden all client key),if_pos (hvis rfl ⟨_,haction,rfl,rfl⟩),h.cwds]
  | ensureLease request now =>
    obtain rfl := Option.some.inj hstep
    refine ⟨_,rfl,?_⟩
    dsimp only [Action.client] at hloo
    rw [ensureLease_roomy hroomy.clients,ensureLease_roomy hroomy'.clients,hloo]
    dsimp only
    split
    · exact h.setLease (by simp [Event.client]) hcli
    · exact h.setLease (by simp) hcli
  | acquired key reply =>
    obtain ⟨state,hsta,⟨rfl,rfl⟩ | ⟨proof,rfl,hfre,rfl⟩⟩ := acquired_cases hstep
    · refine ⟨w'.setLease key { state with waiting := [] } [],?_,h.setLease (by simp) hcli⟩
      dsimp only [Action.client] at hloo
      dsimp only [Compatibility.step,Compatibility.acquired]
      rw [hloo,hsta]
    · have hset : Purged all client (w.setLease key { state with proof := some proof, waiting := [] }
          (state.waiting.map (Event.used key · proof))) (w'.setLease key { state with proof := some proof, waiting := [] }
          (state.waiting.map (Event.used key · proof))) := h.setLease (by simp [Event.client]) hcli
      have hfre' : proof ∉ w'.issued.map Prod.fst := by
        intro hmem
        obtain ⟨entry,hent,rfl⟩ := mem_map.1 hmem
        rw [h.issued] at hent
        exact hfre (mem_map_of_mem (mem_filter.1 hent).1)
      refine ⟨{ w'.setLease key { state with proof := some proof, waiting := [] } (state.waiting.map (Event.used key · proof)) with
        issued := (proof,key)::w'.issued },?_,hset.cwds,hset.leases,?_,hset.log⟩
      · dsimp only [Action.client] at hloo
        dsimp only [Compatibility.step,Compatibility.acquired]
        rw [hloo,hsta]
        exact if_neg hfre'
      · dsimp only
        rw [h.issued]
        exact (filter_cons_of_pos (by simpa [Action.client] using hcli)).symm
  | lost request proof =>
    obtain ⟨hmem,heq⟩ := Option.ite_none_right_eq_some.1 hstep
    obtain rfl := Option.some.inj heq
    refine ⟨_,if_pos (huse hmem),?_⟩
    dsimp only [Action.client] at hloo
    unfold Compatibility.lost
    rw [hloo]
    split
    · exact h
    · split
      · exact h.setLease (by simp) hcli
      · exact h
  | matchFiles request proof target query showHidden offset now =>
    obtain ⟨hmem,heq⟩ := Option.ite_none_right_eq_some.1 hstep
    obtain rfl := Option.some.inj heq
    exact ⟨_,if_pos (huse hmem),h.same (sameSessions_matchFiles w request proof target query showHidden offset now)
      (sameSessions_matchFiles w' request proof target query showHidden offset now)⟩
  | searched search found verified =>
    obtain rfl := Option.some.inj hstep
    exact ⟨_,rfl,h.same (sameSessions_searched w search found verified) (sameSessions_searched w' search found verified)⟩

end Purge

/-- Every proof is known with the credential that it was given to. -/
structure Owned (w : Compatibility α) : Prop where
  issued : (w.issued.map Prod.fst).Nodup
  leases : ∀ entry ∈ w.leases, ∀ proof ∈ entry.2.proof, (proof,entry.1) ∈ w.issued
  log : ∀ client number proof, Event.used client number proof ∈ w.log → (proof,client) ∈ w.issued
  searches : ∀ search ∈ w.searches, (search.proof,search.request.client) ∈ w.issued
  cache : ∀ entry ∈ w.matchCache, (entry.2.proof,entry.2.credential) ∈ w.issued
  served : ∀ sent ∈ w.served, sent.2=sent.1.client

section
variable {w : Compatibility α} (h : Owned w)
include h

theorem Owned.unique {proof : LeaseProof} {client client' : String}
    (hcli : (proof,client) ∈ w.issued) (hcli' : (proof,client') ∈ w.issued) : client=client' :=
  congrArg Prod.snd (inj_on_of_nodup_map h.issued hcli hcli' rfl)

theorem owned_setLease {client : String} (hpro : ∀ proof ∈ state.proof, (proof,client) ∈ w.issued)
    (heve : ∀ key number proof, Event.used key number proof ∈ events → (proof,key) ∈ w.issued) :
    Owned (w.setLease client state events) :=
  { h with
    leases := fun entry hent => by
      rcases mem_mapSet hent with rfl | hold
      · exact hpro
      · exact h.leases entry hold
    log := fun key number proof hmem => (mem_append.1 hmem).elim (heve key number proof) (h.log key number proof) }

theorem owned_matchFiles {proof : LeaseProof} (huse : Event.used request.client request.number proof ∈ w.log)
    (target query : String) (showHidden : Bool) (offset : ℕ) (now : ℤ) :
    Owned (w.matchFiles request proof target query showHidden offset now) := by
  have hpro:=h.log _ _ _ huse
  have hcac : ∀ entry ∈ w.matchCache.filter (fun entry => ¬ entry.2.expires≤now), (entry.2.proof,entry.2.credential) ∈ w.issued :=
    fun entry hent => h.cache entry (mem_filter.1 hent).1
  have hbeg {search : Search} (hsea : (search.proof,search.request.client) ∈ w.issued) :
      Owned { w with matchCache := w.matchCache.filter fun entry => ¬ entry.2.expires≤now, searches := search::w.searches } :=
    { h with
      searches := forall_mem_cons.2 ⟨hsea,h.searches⟩
      cache := hcac }
  unfold Compatibility.matchFiles
  dsimp only
  split
  · rename_i key cached hfou
    split
    · rename_i hsam
      -- what was cached under the proof was found by a request of the credential that the proof was given to
      obtain ⟨-,hfou⟩ := Option.ite_none_right_eq_some.1 hfou
      have hown:=hcac _ (mem_of_find?_eq_some hfou)
      rw [hsam] at hown
      exact { h with
        cache := hcac
        served := forall_mem_cons.2 ⟨h.unique hown hpro,h.served⟩ }
    · exact hbeg hpro
  · exact hbeg hpro

theorem owned_searched (search : Search) (found : α) (verified : Bool) :
    Owned (w.searched search found verified) := by
  unfold Compatibility.searched
  split
  · rename_i hsea
    have hroo : ∀ entry ∈ (if 4≤w.matchCache.length then w.matchCache.tail else w.matchCache),
        (entry.2.proof,entry.2.credential) ∈ w.issued := by
      intro entry hent
      split at hent
      · exact h.cache entry (mem_of_mem_tail hent)
      · exact h.cache entry hent
    refine { h with searches := fun other hoth => h.searches other (mem_of_mem_erase hoth), cache := fun entry hent => ?_ }
    dsimp only at hent
    generalize (if 4≤w.matchCache.length then w.matchCache.tail else w.matchCache)=room at hroo hent
    split at hent
    · split at hent
      · obtain ⟨old,hold,rfl⟩ := mem_map.1 hent
        by_cases hkey : old.1=search.key
        · rw [if_pos hkey]
          exact h.searches search hsea
        · rw [if_neg hkey]
          exact hroo old hold
      · rcases mem_append.1 hent with hold | hnew
        · exact hroo entry hold
        · rw [mem_singleton.1 hnew]
          exact h.searches search hsea
    · exact h.cache entry hent
  · exact h

end

theorem owned_step {home : String} {w t : Compatibility α} {action : Action α} (h : Owned w) (hroomy : Roomy w action)
    (hstep : w.step home action=some t) : Owned t := by
  have hloo {client : String} {state : LeaseState} (hsta : w.leases.lookup client=some state) :
      ∀ proof ∈ state.proof, (proof,client) ∈ w.issued := h.leases _ (mem_of_lookup hsta)
  cases action with
  | arrive request method =>
    obtain rfl := Option.some.inj hstep
    split
    · exact h
    · exact { h with cache := forall_mem_nil _ }
  | cwdFor request now =>
    obtain rfl := Option.some.inj hstep
    refine { h with log := fun client number proof hmem => ?_ }
    rcases mem_cons.1 hmem with heq | hold
    · cases heq
    · exact h.log client number proof hold
  | setCwd request path now =>
    obtain rfl := Option.some.inj hstep
    exact { h with }
  | ensureLease request now =>
    obtain rfl := Option.some.inj hstep
    rw [ensureLease_roomy hroomy.clients]
    have hpro : ∀ proof ∈ ((w.leases.lookup request.client).getD ⟨none,[],now⟩).proof, (proof,request.client) ∈ w.issued := by
      cases hsta : w.leases.lookup request.client with
      | none => exact fun proof hnon => by cases hnon
      | some state => exact hloo hsta
    dsimp only
    split
    · rename_i proof hsom
      refine owned_setLease h hpro fun key number other hmem => ?_
      cases mem_singleton.1 hmem
      exact hpro proof hsom
    · exact owned_setLease h hpro fun key number proof hmem => by cases hmem
  | acquired client reply =>
    obtain ⟨state,hsta,⟨-,rfl⟩ | ⟨proof,-,hfre,rfl⟩⟩ := acquired_cases hstep
    · exact owned_setLease h (fun proof hpro => hloo hsta proof hpro) fun key number proof hmem => by cases hmem
    · have hgro : Owned { w with issued := (proof,client)::w.issued } :=
        { issued := nodup_cons.2 ⟨hfre,h.issued⟩
          leases := fun entry hent other hoth => mem_cons_of_mem _ (h.leases entry hent other hoth)
          log := fun key number other hmem => mem_cons_of_mem _ (h.log key number other hmem)
          searches := fun search hsea => mem_cons_of_mem _ (h.searches search hsea)
          cache := fun entry hent => mem_cons_of_mem _ (h.cache entry hent)
          served := h.served }
      refine owned_setLease hgro (fun other hoth => ?_) fun key number other hmem => ?_
      · obtain rfl := Option.some.inj hoth
        exact mem_cons_self
      · obtain ⟨_,-,heq⟩ := mem_map.1 hmem
        cases heq
        exact mem_cons_self
  | lost request proof =>
    obtain ⟨-,heq⟩ := Option.ite_none_right_eq_some.1 hstep
    obtain rfl := Option.some.inj heq
    unfold Compatibility.lost
    split
    · exact h
    · split
      · exact owned_setLease h (fun proof hnon => by cases hnon) fun key number proof hmem => by cases hmem
      · exact h
  | matchFiles request proof target query showHidden offset now =>
    obtain ⟨huse,heq⟩ := Option.ite_none_right_eq_some.1 hstep
    obtain rfl := Option.some.inj heq
    exact owned_matchFiles h huse target query showHidden offset now
  | searched search found verified =>
    obtain rfl := Option.some.inj hstep
    exact owned_searched h search found verified

/-- In a run in which no credential uses a session where another one sets the working directory, what a credential's requests
resolve their paths against and which proofs they use is the same without the requests of another credential, and cached results
are sent to the credential that searched only. -/
theorem sessions_do_not_interfere {home : String} {actions : List (Action α)} {w : Compatibility α} (hapart : Apart actions)
    (hrun : (sessionSystem α home).RunWhere Roomy (start α) actions w) :
    (∀ client, ∃ w', (sessionSystem α home).exec (start α) (actions.filter fun action => action.client != client)=some w' ∧
      w'.log=w.log.filter fun event => event.client != client) ∧
      ∀ sent ∈ w.served, sent.2=sent.1.client := by
  constructor
  · intro client
    have key {done : List (Action α)} {t : Compatibility α} (hdon : (sessionSystem α home).RunWhere Roomy (start α) done t)
        (hall : ∀ action ∈ done, action ∈ actions) : Claimed actions t ∧ ∃ w', (sessionSystem α home).exec (start α)
          (done.filter fun action => action.client != client)=some w' ∧ Purged actions client t w' := by
      induction hdon with
      | refl => exact ⟨forall_mem_nil _,_,rfl,rfl,rfl,rfl,rfl⟩
      | @tail t u done action hdon hroomy hstep ih =>
        obtain ⟨hclaimed,w',hrun',hpur⟩ := ih fun action haction => hall action (mem_append_left _ haction)
        have haction:=hall action (mem_append_right _ mem_cons_self)
        refine ⟨claimed_step haction hclaimed hroomy hstep,?_⟩
        rw [filter_append]
        by_cases hcli : action.client=client
        · rw [filter_cons_of_neg (by simpa using hcli),filter_nil,append_nil]
          exact ⟨w',hrun',hpur.unseen hapart haction hclaimed hroomy hstep hcli⟩
        · rw [filter_cons_of_pos (by simpa using hcli),filter_nil]
          obtain ⟨t',hstep',hpur'⟩ := hpur.mirrored hapart haction hclaimed hroomy hstep hcli
          exact ⟨t',by rw [TransitionSystem.exec_concat,hrun']; exact hstep',hpur'⟩
    obtain ⟨-,w',hrun',hpur⟩ := key hrun fun _ h => h
    exact ⟨w',hrun',hpur.log⟩
  · have hown : Owned w := hrun.preserves (fun _ _ _ h hroomy hstep => owned_step h hroomy hstep)
      ⟨nodup_nil,forall_mem_nil _,fun _ _ _ h => absurd h not_mem_nil,forall_mem_nil _,
        forall_mem_nil _,forall_mem_nil _⟩
    exact hown.served

/-- One credential sets the working directory of a session, and another one resolves a path. -/
def exampleActions (sessionId : Option String) : List (Action Unit) :=
  [.setCwd ⟨1,"a",sessionId⟩ "/home/qubicl/project" 0,.cwdFor ⟨2,"b",none⟩ 0]

theorem example_run (sessionId : Option String) : ∃ w, (sessionSystem Unit "/home/qubicl").RunWhere Roomy (start Unit)
    (exampleActions sessionId) w ∧ (sessionSystem Unit "/home/qubicl").exec (start Unit) (exampleActions sessionId)=some w := by
  have hset : Roomy (start Unit) (.setCwd ⟨1,"a",sessionId⟩ "/home/qubicl/project" 0) :=
    ⟨by decide,by decide,fun _ _ _ => rfl⟩
  have hloo : Roomy ((start Unit).setCwd ⟨1,"a",sessionId⟩ "/home/qubicl/project" 0) (.cwdFor ⟨2,"b",none⟩ 0) := by
    refine ⟨show 1<256 by decide,show 0<256 by decide,?_⟩
    rintro request now (heq | ⟨path,heq⟩)
    · cases heq
      rfl
    · cases heq
  exact ⟨_,.tail (.tail (.refl _) hset rfl) hloo rfl,rfl⟩

theorem sessions_do_not_interfere_example : ∃ w' : Compatibility Unit, (sessionSystem Unit "/home/qubicl").exec (start Unit)
    ((exampleActions (some "1")).filter fun action => action.client != "a")=some w' := by
  have hapart : Apart (exampleActions (some "1")) := by
    unfold Apart
    decide
  obtain ⟨w,hrun,-⟩ := example_run (some "1")
  obtain ⟨w',hexe,-⟩ := (sessions_do_not_interfere hapart hrun).1 "a"
  exact ⟨w',hexe⟩

/-- Without a header both credentials use one session: the second one resolves its path in the directory of the first one. -/
theorem working_directory_shared : ¬ ∀ (actions : List (Action Unit)) (w : Compatibility Unit),
    (sessionSystem Unit "/home/qubicl").RunWhere Roomy (start Unit) actions w →
      ∀ client, ∃ w', (sessionSystem Unit "/home/qubicl").exec (start Unit)
        (actions.filter fun action => action.client != client)=some w' ∧
          w'.log=w.log.filter fun event => event.client != client := by
  intro h
  obtain ⟨w,hrun,hexe⟩ := example_run none
  obtain ⟨w',hexe',hlog⟩ := h _ w hrun "a"
  cases hexe
  cases hexe'
  revert hlog
  decide

end Qubicl.Control.OpenTerminal.Sessions
