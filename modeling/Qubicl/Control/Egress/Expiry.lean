import Qubicl.Control.DeadlineTimer
import Qubicl.Control.Egress.Policy

/-!
# Connections under a temporary approval (packages/control/src/egress.ts:76-112, 122-193)

A connection that only a temporary approval admits is destroyed by a timer when the approval has expired.
-/

namespace Qubicl.Control.Egress
open Foundation Core Timers List Option

/- A request with what it names as its target; the target of a brokered request is the canonical one of its
credential. -/
inductive Request
  | connect (url : String)
  | forwardHttp (url : String)
  | brokerRequest (target : Url)
  deriving DecidableEq, Repr

section Requests
variable {z : Formats} (node : Network z)

/- The error of `new URL` is no `QubiclError`. -/
def invalidUrl : QubiclError := ⟨"egress_error","Invalid URL",500⟩

def brokerOffline : QubiclError := denied "Credential brokering is disabled by the offline network profile."

def requestTarget (policy : EgressNetworkPolicy) : Request → Except QubiclError (String × ℕ)
  | .connect url => connectTarget url
  | .forwardHttp url =>
    match node.url url with
    | none => .error invalidUrl
    | some target =>
      if target.protocol ≠ "http:" ∧ target.protocol ≠ "https:" then
        .error (denied "Only HTTP and HTTPS proxy requests are supported.")
      else .ok (normalizeEgressHostname node target.hostname,
        target.port.getD (if target.protocol = "https:" then 443 else 80))
  | .brokerRequest target =>
    if policy.profile=.offline then .error brokerOffline
    else .ok (normalizeEgressHostname node target.hostname,target.port.getD 443)

def authorizeRequest (lookup : String → Except QubiclError (List String)) (policy : EgressNetworkPolicy) (now : ℤ)
    (request : Request) : Except QubiclError Authorization := do
  let (host,port) ← requestTarget node policy request
  authorizeTarget node lookup host port policy now

end Requests

/- The delay of every expiry timer: `Math.max(1, expiresAt - Date.now() + 1)`. -/
def expiryDelay (expiresAt now : ℤ) : ℤ := max 1 (expiresAt - now+1)

/- `timer` is the moment from which the expiry timer is due, `destroyedAt` the one at which it ran. -/
structure Connection where
  request : Request
  address : String
  expiresAt : Option ℤ
  openedAt : ℤ
  timer : Option ℤ
  destroyedAt : Option ℤ
  closed : Bool
  deriving DecidableEq, Repr

def openConnection (request : Request) (authorization : Authorization) (now : ℤ) : Connection where
  request := request
  address := authorization.address
  expiresAt := authorization.expiresAt
  openedAt := now
  timer := authorization.expiresAt.map fun expiresAt => due now (expiryDelay expiresAt now)
  destroyedAt := none
  closed := false

def Connection.close (connection : Connection) : Connection := { connection with timer := none, closed := true }

def Connection.expire (now : ℤ) (connection : Connection) : Connection :=
  match connection.timer with
  | none => connection
  | some moment => if moment≤now then { connection with timer := none, destroyedAt := some now, closed := true }
      else connection

/- `authorized` are the requests that are about to connect; `moments` are those at which timers ran. -/
structure Server where
  now : ℤ
  authorized : List (Request × Authorization)
  connections : List Connection
  moments : List ℤ
  deriving DecidableEq, Repr

def Server.runTimers (s : Server) : Server :=
  { s with connections := s.connections.map (Connection.expire s.now), moments := s.moments++[s.now] }

inductive Event
  | authorize (request : Request) (given : NetworkPolicy) (lookup : String → Except QubiclError (List String))
  | connect (index : ℕ)
  | close (index : ℕ)
  | pass (milliseconds : ℕ)
  | timers

section Steps
variable {z : Formats} (node : Network z)

def Server.authorize (s : Server) (request : Request) (policy : EgressNetworkPolicy)
    (lookup : String → Except QubiclError (List String)) : Server :=
  match authorizeRequest node lookup policy s.now request with
  | .error _ => s
  | .ok authorization => { s with authorized := s.authorized++[(request,authorization)] }

/- A policy is one that the schema accepts. -/
def step (s : Server) : Event → Option Server
  | .authorize request given lookup =>
    ((networkPolicySchema z).parse given).map fun policy => s.authorize node request (parsePolicy policy) lookup
  | .connect index => s.authorized[index]?.map fun (request,authorization) =>
    { s with
      authorized := s.authorized.eraseIdx index
      connections := s.connections++[openConnection request authorization s.now] }
  | .close index => some { s with connections := s.connections.modify index Connection.close }
  | .pass milliseconds => some { s with now := s.now+milliseconds }
  | .timers => some s.runTimers

def system : TransitionSystem Server Event where
  initial s := s.authorized=[] ∧ s.connections=[] ∧ s.moments=[]
  step := step node

end Steps

/-- What is asked of a connection: its timer does not destroy it before the approval has expired, and it is
closed once timers have run later than a millisecond after that. -/
def Lasts (s : Server) (connection : Connection) : Prop :=
  ∀ expiresAt, connection.expiresAt=some expiresAt →
    (∀ moment, connection.destroyedAt=some moment → expiresAt ≤ moment) ∧
      ∀ moment ∈ s.moments, connection.openedAt < moment → expiresAt+1 < moment → connection.closed=true

section Runs
variable {z : Formats} {node : Network z} {s t : Server} {event : Event} {index : ℕ} {moments : List ℤ} {now : ℤ}
  {openedAt expiresAt : ℤ} {connection : Connection}

def dueAt (openedAt expiresAt : ℤ) : ℤ := due openedAt (expiryDelay expiresAt openedAt)

structure Watched (openedAt expiresAt : ℤ) (moments : List ℤ) (connection : Connection) : Prop where
  opened : connection.openedAt=openedAt
  expires : connection.expiresAt=some expiresAt
  timer : ∀ moment, connection.timer=some moment → moment=dueAt openedAt expiresAt
  destroyed : ∀ moment, connection.destroyedAt=some moment → dueAt openedAt expiresAt ≤ moment
  waiting : connection.closed=false →
    connection.timer=some (dueAt openedAt expiresAt) ∧ ∀ moment ∈ moments, moment<dueAt openedAt expiresAt

theorem Watched.close (h : Watched openedAt expiresAt moments connection) :
    Watched openedAt expiresAt moments connection.close :=
  ⟨h.opened,h.expires,fun _ hnon => (by cases hnon),h.destroyed,fun hope => by cases hope⟩

theorem Watched.expire (h : Watched openedAt expiresAt moments connection) :
    Watched openedAt expiresAt (moments++[now]) (connection.expire now) := by
  unfold Connection.expire
  cases htim : connection.timer with
  | none =>
    refine ⟨h.opened,h.expires,h.timer,h.destroyed,fun hope => ?_⟩
    rw [(h.waiting hope).1] at htim
    cases htim
  | some moment =>
    have hmom:=h.timer moment htim
    dsimp only
    by_cases hdue : moment≤now
    · rw [if_pos hdue]
      refine ⟨h.opened,h.expires,fun _ hnon => (by cases hnon),fun ran hran => ?_,fun hope => by cases hope⟩
      cases hran
      omega
    · rw [if_neg hdue]
      refine ⟨h.opened,h.expires,h.timer,h.destroyed,fun hope => ⟨(h.waiting hope).1,fun ran hran => ?_⟩⟩
      rcases mem_append.1 hran with hran | hran
      · exact (h.waiting hope).2 ran hran
      · rw [mem_singleton.1 hran]
        omega

theorem authorize_keeps (node : Network z) (s : Server) (request : Request) (policy : EgressNetworkPolicy)
    (lookup : String → Except QubiclError (List String)) :
    (s.authorize node request policy lookup).now=s.now ∧
      (s.authorize node request policy lookup).connections=s.connections ∧
      (s.authorize node request policy lookup).moments=s.moments := by
  unfold Server.authorize
  cases authorizeRequest node lookup policy s.now request <;> exact ⟨rfl,rfl,rfl⟩

def WatchedAt (index : ℕ) (openedAt expiresAt : ℤ) (s : Server) : Prop :=
  ∃ connection, s.connections[index]? = some connection ∧ Watched openedAt expiresAt s.moments connection

theorem WatchedAt.step (h : WatchedAt index openedAt expiresAt s) (hste : step node s event=some t) :
    WatchedAt index openedAt expiresAt t := by
  obtain ⟨connection,hfou,hwat⟩ := h
  cases event with
  | authorize request given lookup =>
    obtain ⟨policy,-,rfl⟩ := map_eq_some_iff.1 hste
    obtain ⟨-,hcon,hmom⟩ := authorize_keeps node s request (parsePolicy policy) lookup
    refine ⟨connection,?_,?_⟩
    · rw [hcon,hfou]
    · rw [hmom]
      exact hwat
  | connect i =>
    obtain ⟨⟨request,authorization⟩,-,ht⟩ := map_eq_some_iff.1 hste
    rw [← ht]
    refine ⟨connection,?_,hwat⟩
    dsimp only
    rw [getElem?_append_left (List.getElem?_eq_some_iff.1 hfou).1,hfou]
  | close i =>
    cases hste
    by_cases hi : i=index
    · refine ⟨connection.close,?_,hwat.close⟩
      simp [hi,hfou]
    · refine ⟨connection,?_,hwat⟩
      simp [hi,hfou]
  | pass milliseconds =>
    cases hste
    exact ⟨connection,hfou,hwat⟩
  | timers =>
    cases hste
    refine ⟨connection.expire s.now,?_,hwat.expire⟩
    simp [Server.runTimers,hfou]

theorem moments_past (h : (system node).Reachable s) : ∀ moment ∈ s.moments, moment ≤ s.now := by
  refine h.invariant (P := fun s => ∀ moment ∈ s.moments, moment ≤ s.now) ?_ ?_
  · rintro s ⟨-,-,hnon⟩ moment hmem
    rw [hnon] at hmem
    cases hmem
  · intro s event t hs hste
    cases event with
    | authorize request given lookup =>
      obtain ⟨policy,-,rfl⟩ := map_eq_some_iff.1 hste
      obtain ⟨hnow,-,hmom⟩ := authorize_keeps node s request (parsePolicy policy) lookup
      rw [hnow,hmom]
      exact hs
    | connect i =>
      obtain ⟨⟨request,authorization⟩,-,ht⟩ := map_eq_some_iff.1 hste
      rw [← ht]
      exact hs
    | close i => cases hste; exact hs
    | pass milliseconds =>
      cases hste
      intro moment hmem
      have := hs moment hmem
      dsimp only
      omega
    | timers =>
      cases hste
      intro moment hmem
      rcases mem_append.1 hmem with hmem | hmem
      · exact hs moment hmem
      · rw [mem_singleton.1 hmem]
        exact le_rfl

theorem watchedAt_run {events : List Event} (h : WatchedAt index openedAt expiresAt s)
    (hrun : (system node).Run s events t) : WatchedAt index openedAt expiresAt t :=
  hrun.preserves (fun _ _ _ hs hste => hs.step hste) h

theorem connect_opens (hste : step node s (.connect index)=some t)
    (hope : t.connections[s.connections.length]? = some connection) (hexp : connection.expiresAt=some expiresAt) :
    t.now=s.now ∧ t.moments=s.moments ∧ connection.openedAt=s.now ∧ connection.destroyedAt=none ∧
      connection.timer=some (dueAt s.now expiresAt) := by
  obtain ⟨⟨request,authorization⟩,-,ht⟩ := map_eq_some_iff.1 hste
  rw [← ht] at hope ⊢
  simp only [getElem?_concat_length,Option.some.injEq] at hope
  subst hope
  have haut : authorization.expiresAt=some expiresAt := hexp
  refine ⟨rfl,rfl,rfl,rfl,?_⟩
  rw [openConnection,haut]
  rfl

theorem watchedAt_connect (hrea : (system node).Reachable s) (hste : step node s (.connect index)=some t)
    (hope : t.connections[s.connections.length]? = some connection) (hexp : connection.expiresAt=some expiresAt) :
    WatchedAt s.connections.length s.now expiresAt t := by
  obtain ⟨-,hmom,hat,hnon,htim⟩ := connect_opens hste hope hexp
  refine ⟨connection,hope,hat,hexp,fun moment hset => ?_,fun moment hdes => ?_,
    fun _ => ⟨htim,fun moment hmem => ?_⟩⟩
  · rw [htim] at hset
    exact (Option.some.inj hset).symm
  · rw [hnon] at hdes
    cases hdes
  · rw [hmom] at hmem
    exact (moments_past hrea moment hmem).trans_lt (lt_due _ _)

theorem Watched.lasts (h : Watched openedAt expiresAt s.moments connection)
    (hdel : expiresAt - openedAt+1≤timeoutMax) : Lasts s connection := by
  intro expiry hexp
  have hsam : expiresAt=expiry := by
    rw [h.expires] at hexp
    exact Option.some.inj hexp
  have hmax : max 1 (expiresAt - openedAt+1)≤timeoutMax := max_le (by decide) hdel
  have hdue : dueAt openedAt expiresAt=openedAt+max 1 (expiresAt - openedAt+1) :=
    due_eq (le_max_left _ _) hmax
  refine ⟨fun moment hdes => ?_,fun moment hran hlat hpas => ?_⟩
  · have := h.destroyed moment hdes
    omega
  · by_contra hope
    have hbef:=(h.waiting (Bool.eq_false_iff.2 hope)).2 moment hran
    have := h.opened
    omega

theorem overflow_run (hste : step node s (.connect index)=some t)
    (hope : t.connections[s.connections.length]? = some connection) (hexs : connection.expiresAt=some expiresAt)
    (hdel : timeoutMax<expiresAt - s.now+1) :
    ∃ events u, (system node).Run t events u ∧
      ∃ destroyed, u.connections[s.connections.length]? = some destroyed ∧ ¬ Lasts u destroyed := by
  obtain ⟨hnow,-,-,-,htim⟩ := connect_opens hste hope hexs
  have hsho : dueAt s.now expiresAt=s.now+1 := by
    refine due_overflow ?_
    rw [expiryDelay]
    omega
  let passed : Server := { t with now := t.now+(1 : ℕ) }
  have hpas : (system node).step t (.pass 1)=some passed := rfl
  have htis : (system node).step passed .timers=some passed.runTimers := rfl
  have hdue : dueAt s.now expiresAt≤passed.now := by
    change _≤t.now+(1 : ℕ)
    omega
  have hexp : connection.expire passed.now =
      { connection with timer := none, destroyedAt := some passed.now, closed := true } := by
    rw [Connection.expire,htim]
    exact if_pos hdue
  refine ⟨[.pass 1]++[.timers],passed.runTimers,(TransitionSystem.Run.single hpas).tail htis,
    connection.expire passed.now,?_,fun hlas => ?_⟩
  · change (t.connections.map (Connection.expire passed.now))[s.connections.length]? = _
    rw [getElem?_map,hope,map_some]
  · rw [hexp] at hlas
    have hear:=(hlas expiresAt hexs).1 passed.now rfl
    change expiresAt≤t.now+(1 : ℕ) at hear
    have : timeoutMax=2147483647 := rfl
    omega

/-- In every run after a connection is opened under a temporary approval the approval lasts, and every
deadline timer is safe, if and only if the expiry is at most `2 ^ 31 - 2` milliseconds ahead. -/
theorem approval_lasts_iff (hreachable : (system node).Reachable s) (hstep : step node s (.connect index)=some t)
    (hopened : t.connections[s.connections.length]? = some connection)
    (hexpires : connection.expiresAt=some expiresAt) :
    ((∀ events u later, (system node).Run t events u → u.connections[s.connections.length]? = some later →
        Lasts u later) ∧ ∀ delayMs, Deadlines.Safe delayMs) ↔
      expiresAt - s.now+1≤timeoutMax := by
  constructor
  · rintro ⟨hlas,-⟩
    by_contra hlon
    obtain ⟨events,u,hrun,destroyed,hfou,hfai⟩ :=
      overflow_run hstep hopened hexpires (not_le.1 hlon)
    exact hfai (hlas events u destroyed hrun hfou)
  · intro hdel
    refine ⟨fun events u later hrun hfou => ?_,Deadlines.deadlineTimer_safe⟩
    obtain ⟨watched,hsam,hwat⟩ := watchedAt_run (watchedAt_connect hreachable hstep hopened hexpires) hrun
    rw [hfou] at hsam
    rw [Option.some.inj hsam]
    exact hwat.lasts hdel

end Runs

def twoDates : Network namesAndAddress :=
  datedNetwork fun text =>
    if text = "1970-01-01T01:00:00.000Z" then some 3600000
    else if text = "1970-02-04T17:20:00.000Z" then some 3000000000 else none

def approvedUntil (expiresAt : String) : NetworkPolicy where
  profile := .custom
  allowDomains := none
  denyDomains := none
  allowCidrs := none
  allowTcpPorts := none
  temporaryApprovals := some [⟨"example.com",expiresAt⟩]

def authorizedUntil (expiresAt : ℤ) : Server :=
  ⟨0,[(.connect "example.com:443",⟨"8.8.8.8",some expiresAt⟩)],[],[]⟩

def connectedUntil (expiresAt : ℤ) : Server :=
  ⟨0,[],[openConnection (.connect "example.com:443") ⟨"8.8.8.8",some expiresAt⟩ 0],[]⟩

theorem reachable_authorized (text : String) {expiresAt : ℤ}
    (h : (system twoDates).exec ⟨0,[],[],[]⟩
      [.authorize (.connect "example.com:443") (approvedUntil text) fun _ => .ok ["8.8.8.8"]] =
        some (authorizedUntil expiresAt)) : (system twoDates).Reachable (authorizedUntil expiresAt) :=
  ⟨_,_,⟨rfl,rfl,rfl⟩,TransitionSystem.run_of_exec h⟩

/-- A tunnel under an approval of 34 days is destroyed after a millisecond. -/
theorem month_approval_cut :
    ¬ ∀ (z : Formats) (node : Network z) (s t : Server) (index : ℕ) (connection : Connection) (expiresAt : ℤ),
      (system node).Reachable s → step node s (.connect index)=some t →
      t.connections[s.connections.length]? = some connection → connection.expiresAt=some expiresAt →
      (∀ events u later, (system node).Run t events u → u.connections[s.connections.length]? = some later →
        Lasts u later) ∧ ∀ delayMs, Deadlines.Safe delayMs := by
  intro h
  have hrea : (system twoDates).Reachable (authorizedUntil 3000000000) :=
    reachable_authorized "1970-02-04T17:20:00.000Z" (by decide +kernel)
  obtain ⟨hlas,-⟩ := h _ _ _ (connectedUntil 3000000000) 0 _ _ hrea rfl rfl rfl
  have hexe : ((system twoDates).exec (connectedUntil 3000000000) [.pass 1,.timers]).bind
      (fun u => u.connections[0]?.map fun later => (u,later.expiresAt,later.destroyedAt)) =
        some (⟨1,[],[⟨.connect "example.com:443","8.8.8.8",some 3000000000,0,none,some 1,true⟩],[1]⟩,
          some 3000000000,some 1) := by decide
  obtain ⟨u,hu,hfou⟩ := bind_eq_some_iff.1 hexe
  obtain ⟨later,hlat,hsam⟩ := map_eq_some_iff.1 hfou
  have hear:=(hlas _ u later (TransitionSystem.run_of_exec hu) hlat 3000000000
    (congrArg (fun found => found.2.1) hsam)).1 1 (congrArg (fun found => found.2.2) hsam)
  exact absurd hear (by decide)

theorem approval_lasts_hour :
    ((∀ events u later, (system twoDates).Run (connectedUntil 3600000) events u →
      u.connections[0]? = some later → Lasts u later) ∧ ∀ delayMs, Deadlines.Safe delayMs) ↔
      (3600000 : ℤ) - 0+1≤timeoutMax := by
  have hrea : (system twoDates).Reachable (authorizedUntil 3600000) :=
    reachable_authorized "1970-01-01T01:00:00.000Z" (by decide +kernel)
  have hste : step twoDates (authorizedUntil 3600000) (.connect 0)=some (connectedUntil 3600000) := rfl
  exact approval_lasts_iff hrea hste rfl rfl

end Qubicl.Control.Egress
