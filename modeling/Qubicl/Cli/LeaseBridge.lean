import Mathlib.Data.List.Count
import Mathlib.Data.Rat.Defs
import Qubicl.Foundation.Transition

/-!
# The transparent MCP bridge (packages/cli/src/mcp.ts:38-65, 98-182)

One bridge with its calls, its requests in flight, and the three ways in which it releases: for a lease that was
acquired for background work, when its server closes, and when the transport closes. Each moment at which a call or an
acquisition goes on is an action; what the computer replies is left open.
-/

namespace Qubicl.Cli.LeaseBridge
open Foundation List Option

structure BridgeLease where
  id : String
  generation : ℚ
  epoch : String
  deriving DecidableEq, Repr

/- What a tool's request comes to: the status, the code of the error and its `details.dispatch`, or no reply at all. -/
inductive Reply
  | answered (ok : Bool) (code dispatch : Option String)
  | failed
  deriving DecidableEq, Repr

/- The code with which the computer refuses a proof, when the tool was not started. -/
def Reply.refusal : Reply → Option String
  | .answered false (some code) (some "not-started") =>
    if code ∈ ["stale_lease","background_lease"] then some code else none
  | _ => none

/- Where a call goes on: at the reply of a tool that needs no lease, at the shared acquisition, at its own `post`, at
the reply of that, or after the release of a lease for background work. -/
inductive Phase
  | plain
  | acquiring (attempt : ℕ)
  | holding (attempt : ℕ) (proof : BridgeLease)
  | posted (attempt : ℕ) (proof : BridgeLease)
  | releasing
  | done
  deriving DecidableEq, Repr

/- `this.acquiring`: its request is in flight, or its result is known and `finally` has not run yet. -/
inductive Acquisition
  | inFlight
  | settled (result : Option BridgeLease)
  deriving DecidableEq, Repr

/- What a `release` was for. -/
inductive Origin
  | call (c : ℕ)
  | server
  | transport
  deriving DecidableEq, Repr

inductive Transport
  | opened | closing | closed
  deriving DecidableEq, Repr

/- `acquires` and `releases` are requests in flight; a call is known by its place in `calls`. From `handed` on nothing is
read by the code: the proofs that were handed to the bridge and those that it sent to be released, the calls that
posted their tools, with the replies, the proofs that these refused, the proofs that calls have forgotten or released,
and whether a call started after the transport began to close. -/
structure Bridge where
  lease : Option BridgeLease
  acquiring : Option Acquisition
  calls : List Phase
  acquires : ℕ
  releases : List Origin
  disconnected : Bool
  transport : Transport
  handed : List BridgeLease
  released : List BridgeLease
  posts : List ℕ
  replies : List (ℕ × Reply)
  refusals : List (ℕ × BridgeLease × String)
  drops : List (ℕ × BridgeLease)
  late : Bool

inductive Action
  | call (leased : Bool)
  | acquired (result : Option BridgeLease)
  | acquireDone
  | post (c : ℕ)
  | reply (c : ℕ) (reply : Reply)
  | releaseDone (origin : Origin)
  | serverClose
  | transportClose
  | transportClosed

namespace Bridge
variable (b : Bridge)

def setCall (c : ℕ) (phase : Phase) : Bridge := { b with calls := b.calls.set c phase }

/- `ensureLease`, up to its suspension. -/
def ensureLease (c attempt : ℕ) : Bridge :=
  match b.lease with
  | some proof => b.setCall c (.holding attempt proof)
  | none =>
    match b.acquiring with
    | some _ => b.setCall c (.acquiring attempt)
    | none => { b.setCall c (.acquiring attempt) with acquiring := some .inFlight, acquires := b.acquires+1 }

def release (origin : Origin) : Bridge :=
  match b.lease with
  | none => b
  | some proof => { b with lease := none, releases := b.releases++[origin], released := proof::b.released }

def call (leased : Bool) : Bridge :=
  let c:=b.calls.length
  let b : Bridge := { b with late := b.late || b.transport != .opened }
  if leased then ({ b with calls := b.calls++[.acquiring 0] } : Bridge).ensureLease c 0
  else { b with calls := b.calls++[.plain], posts := c::b.posts }

def acquired (result : Option BridgeLease) : Option Bridge :=
  match b.acquiring, b.acquires with
  | some .inFlight, acquires+1 => some { b with
      acquiring := some (.settled result)
      acquires
      lease := result.orElse fun _ => b.lease
      handed := result.toList++b.handed }
  | _, _ => none

/- Those that waited for the acquisition go on with its result. -/
def joined (result : Option BridgeLease) : Phase → Phase
  | .acquiring attempt => match result with
    | some proof => .holding attempt proof
    | none => .done
  | phase => phase

def acquireDone : Option Bridge :=
  match b.acquiring with
  | some (.settled result) => some { b with acquiring := none, calls := b.calls.map (joined result) }
  | _ => none

def post (c : ℕ) : Option Bridge :=
  match b.calls[c]? with
  | some (.holding attempt proof) => some { b.setCall c (.posted attempt proof) with posts := c::b.posts }
  | _ => none

def retry (c : ℕ) (proof : BridgeLease) (code : String) : Bridge :=
  if b.lease=some proof then
    let b:={ b with drops := (c,proof)::b.drops }
    if code = "background_lease" then (b.release (.call c)).setCall c .releasing
    else { b with lease := none }.ensureLease c 1
  else b.ensureLease c 1

def reply (c : ℕ) (r : Reply) : Option Bridge :=
  match b.calls[c]? with
  | some .plain => some { b.setCall c .done with replies := (c,r)::b.replies }
  | some (.posted attempt proof) =>
    let b:={ b with
      replies := (c,r)::b.replies
      refusals := (r.refusal.map fun code => (c,proof,code)).toList++b.refusals }
    match r.refusal with
    | some code => if 0<attempt then some (b.setCall c .done) else some (b.retry c proof code)
    | none => some (b.setCall c .done)
  | _ => none

/- However a release ends, the call that it was for goes on. -/
def releaseDone (origin : Origin) : Option Bridge :=
  if origin ∈ b.releases then
    let b:={ b with releases := b.releases.erase origin }
    match origin with
    | .call c => if b.calls[c]? = some .releasing then some (b.ensureLease c 1) else none
    | _ => some b
  else none

def serverClose : Bridge := if b.disconnected then b else { b.release .server with disconnected := true }

def transportClose : Option Bridge :=
  if b.transport=.opened then
    some { (if b.disconnected then b else b.release .transport) with transport := .closing }
  else none

def transportClosed : Option Bridge :=
  if b.transport=.closing ∧ Origin.transport ∉ b.releases then some { b.serverClose with transport := .closed }
  else none

def step : Action → Option Bridge
  | .call leased => some (b.call leased)
  | .acquired result => b.acquired result
  | .acquireDone => b.acquireDone
  | .post c => b.post c
  | .reply c r => b.reply c r
  | .releaseDone origin => b.releaseDone origin
  | .serverClose => some b.serverClose
  | .transportClose => b.transportClose
  | .transportClosed => b.transportClosed

end Bridge

def initialBridge : Bridge := ⟨none,none,[],0,[],false,.opened,[],[],[],[],[],[],false⟩

def system : TransitionSystem Bridge Action where
  initial b := b=initialBridge
  step := Bridge.step

def repliesTo (b : Bridge) (c : ℕ) : List Reply := (b.replies.filter (·.1=c)).map Prod.snd

def PostsOnce (b : Bridge) (c : ℕ) : Prop :=
  b.posts.count c≤2 ∧ (b.posts.count c=2 → ∃ first, (repliesTo b c).getLast? = some first ∧ first.refusal.isSome=true)

def Refused (b : Bridge) (proof : BridgeLease) : Prop := ∃ c, (c,proof,"stale_lease") ∈ b.refusals

def Settled (b : Bridge) : Prop :=
  b.acquires=0 ∧ b.acquiring=none ∧ b.releases=[] ∧ ∀ phase ∈ b.calls, phase=.done

/-- A tool is posted again only after a refusal and once, one acquisition at a time, a proof is dropped only by a call
whose reply refused it, and after the transport has closed no proof is left behind. -/
structure Transparent (b : Bridge) : Prop where
  once : ∀ c, PostsOnce b c
  single : b.acquires≤1
  own : ∀ drop ∈ b.drops, ∃ code, (drop.1,drop.2,code) ∈ b.refusals
  returned : b.transport=.closed → b.late=false → Settled b → ∀ proof ∈ b.handed, proof ∈ b.released ∨ Refused b proof

/-- No proof is handed to the bridge after its server has closed. -/
def inTime (b : Bridge) : Action → Bool
  | .acquired (some _) => !b.disconnected
  | _ => true

def Progress (posts : ℕ) (replies : List Reply) : Phase → Prop
  | .plain | .posted 0 _ => posts=1 ∧ replies=[]
  | .acquiring 0 | .holding 0 _ => posts=0 ∧ replies=[]
  | .acquiring (_+1) | .holding (_+1) _ | .releasing =>
    posts=1 ∧ ∃ first, replies=[first] ∧ first.refusal.isSome=true
  | .posted (_+1) _ => posts=2 ∧ ∃ first, replies=[first] ∧ first.refusal.isSome=true
  | .done => posts≤2 ∧ (posts=2 → ∃ first, replies.getLast? = some first ∧ first.refusal.isSome=true)

def At (b : Bridge) (c : ℕ) : Prop :=
  match b.calls[c]? with
  | some phase => Progress (b.posts.count c) (repliesTo b c) phase
  | none => b.posts.count c=0 ∧ repliesTo b c=[]

variable {posts : ℕ} {r : Reply} {replies : List Reply} {code : String} {origin : Origin}
  {result : Option BridgeLease}

section Calls
variable {b b' : Bridge} {c k attempt : ℕ} {phase : Phase} {proof : BridgeLease}

theorem Progress.done (h : Progress posts replies phase) : Progress posts replies .done := by
  cases phase with
  | plain => exact ⟨by have := h.1; omega,fun h2 => by have := h.1; omega⟩
  | acquiring attempt =>
    cases attempt with
    | zero => exact ⟨by have := h.1; omega,fun h2 => by have := h.1; omega⟩
    | succ => exact ⟨by have := h.1; omega,fun h2 => by have := h.1; omega⟩
  | holding attempt =>
    cases attempt with
    | zero => exact ⟨by have := h.1; omega,fun h2 => by have := h.1; omega⟩
    | succ => exact ⟨by have := h.1; omega,fun h2 => by have := h.1; omega⟩
  | posted attempt =>
    cases attempt with
    | zero => exact ⟨by have := h.1; omega,fun h2 => by have := h.1; omega⟩
    | succ =>
      obtain ⟨hpos,first,hrep,href⟩ := h
      exact ⟨hpos.le,fun _ => ⟨first,by rw [hrep]; rfl,href⟩⟩
  | releasing => exact ⟨by have := h.1; omega,fun h2 => by have := h.1; omega⟩
  | done => exact h

theorem Progress.holds (h : Progress posts replies (.acquiring attempt)) :
    Progress posts replies (.holding attempt proof) := by
  cases attempt with
  | zero => exact h
  | succ => exact h

theorem At.once (h : At b c) : PostsOnce b c := by
  unfold At at h
  split at h
  next => exact h.done
  next => exact ⟨by have := h.1; omega,fun h2 => by have := h.1; omega⟩

theorem At.of_some (h : At b c) (hpha : b.calls[c]? = some phase) :
    Progress (b.posts.count c) (repliesTo b c) phase := by
  rw [At,hpha] at h
  exact h

theorem at_of_some (hpha : b.calls[c]? = some phase) (h : Progress (b.posts.count c) (repliesTo b c) phase) :
    At b c := by
  rw [At,hpha]
  exact h

theorem At.same (h : At b k) (hcal : b'.calls[k]? = b.calls[k]?) (hpos : b'.posts.count k=b.posts.count k)
    (hrep : repliesTo b' k=repliesTo b k) : At b' k := by
  unfold At at h ⊢
  rw [hcal,hpos,hrep]
  exact h

theorem repliesTo_other (hrep : b'.replies=(c,r)::b.replies) (hne : k≠c) : repliesTo b' k=repliesTo b k := by
  unfold repliesTo
  rw [hrep,filter_cons,if_neg (by simpa using fun heq : c=k => hne heq.symm)]

theorem repliesTo_self (hrep : b'.replies=(c,r)::b.replies) : repliesTo b' c=r::repliesTo b c := by
  unfold repliesTo
  rw [hrep,filter_cons,if_pos (by simp)]
  rfl

theorem calls_set (h : ∀ k, k≠c → At b k) (hc : c<b.calls.length) (hcal : b'.calls=b.calls.set c phase)
    (hpos : ∀ k, k≠c → b'.posts.count k=b.posts.count k)
    (hrep : ∀ k, k≠c → repliesTo b' k=repliesTo b k)
    (hpro : Progress (b'.posts.count c) (repliesTo b' c) phase) : ∀ k, At b' k := by
  intro k
  by_cases hk : k=c
  · subst hk
    exact at_of_some (by rw [hcal,getElem?_set_self hc]) hpro
  · exact (h k hk).same (by rw [hcal,getElem?_set_ne fun heq => hk heq.symm]) (hpos k hk) (hrep k hk)

theorem ensureLease_calls (b : Bridge) (c attempt : ℕ) : ∃ phase,
    (phase=.acquiring attempt ∨ ∃ proof, phase=.holding attempt proof) ∧
      (b.ensureLease c attempt).calls=b.calls.set c phase ∧ (b.ensureLease c attempt).posts=b.posts ∧
        (b.ensureLease c attempt).replies=b.replies := by
  unfold Bridge.ensureLease
  split
  next proof _ => exact ⟨_,.inr ⟨proof,rfl⟩,rfl,rfl,rfl⟩
  next => split <;> exact ⟨_,.inl rfl,rfl,rfl,rfl⟩

/- A call comes to `ensureLease` at its beginning, or after one reply that refused its proof. -/
theorem ensureLease_at (h : ∀ k, k≠c → At b k) (hc : c<b.calls.length)
    (hpro : Progress (b.posts.count c) (repliesTo b c) (.acquiring attempt)) :
    ∀ k, At (b.ensureLease c attempt) k := by
  obtain ⟨phase,hpha,hcal,hpos,hrep⟩ := ensureLease_calls b c attempt
  have hsam : ∀ k, repliesTo (b.ensureLease c attempt) k=repliesTo b k := fun k => by rw [repliesTo,hrep,repliesTo]
  refine calls_set h hc hcal (fun k _ => by rw [hpos]) (fun k _ => hsam k) ?_
  rw [hpos,hsam]
  rcases hpha with rfl | ⟨proof,rfl⟩
  · exact hpro
  · exact hpro.holds

end Calls

structure Leases (b : Bridge) : Prop where
  acquires : b.acquires=if b.acquiring=some .inFlight then 1 else 0
  vacant : b.acquiring=some .inFlight → b.lease=none
  handed : ∀ proof ∈ b.handed, proof ∈ b.released ∨ Refused b proof ∨ b.lease=some proof
  own : ∀ drop ∈ b.drops, ∃ code, (drop.1,drop.2,code) ∈ b.refusals
  closed : b.transport=.closed → b.disconnected=true

section Leases
variable {b b' : Bridge} {c attempt : ℕ} {phase : Phase} {proof : BridgeLease}

theorem Leases.setCall (h : Leases b) (c : ℕ) (phase : Phase) : Leases (b.setCall c phase) :=
  ⟨h.acquires,h.vacant,h.handed,h.own,h.closed⟩

theorem Leases.ensureLease (h : Leases b) (c attempt : ℕ) : Leases (b.ensureLease c attempt) := by
  unfold Bridge.ensureLease
  split
  next => exact h.setCall c _
  next hnon =>
    split
    next => exact h.setCall c _
    next hidl =>
      have hacq:=h.acquires
      rw [hidl,if_neg (fun heq => by cases heq)] at hacq
      refine ⟨?_,fun _ => hnon,h.handed,h.own,h.closed⟩
      show b.acquires+1=_
      rw [if_pos rfl,hacq]

theorem Leases.release (h : Leases b) (origin : Origin) : Leases (b.release origin) := by
  unfold Bridge.release
  split
  next => exact h
  next proof hlea =>
    refine ⟨h.acquires,fun _ => rfl,fun held hheld => ?_,h.own,h.closed⟩
    rcases h.handed held hheld with hrel | hrefused | hheld
    · exact .inl (mem_cons_of_mem _ hrel)
    · exact .inr (.inl hrefused)
    · rw [hlea] at hheld
      cases hheld
      exact .inl mem_cons_self

theorem release_lease (b : Bridge) (origin : Origin) : (b.release origin).lease=none := by
  unfold Bridge.release
  split
  next hnon => exact hnon
  next => rfl

theorem Leases.acquired (h : Leases b) (hste : b.acquired result=some b') : Leases b' := by
  unfold Bridge.acquired at hste
  split at hste
  next acquires hacg hacq =>
    cases hste
    have hone:=h.acquires
    rw [hacg,if_pos rfl,hacq] at hone
    have hvac:=h.vacant hacg
    refine ⟨?_,fun heq => (by cases heq),fun proof hpro => ?_,h.own,h.closed⟩
    · rw [if_neg (fun heq => by cases heq)]
      exact Nat.succ.inj hone
    · show proof ∈ b.released ∨ Refused b proof ∨ (result.orElse fun _ => b.lease)=some proof
      rcases mem_append.1 hpro with hnew | hold
      · rw [mem_toList] at hnew
        rw [hnew]
        exact .inr (.inr rfl)
      · rcases h.handed proof hold with hrel | hrefused | hheld
        · exact .inl hrel
        · exact .inr (.inl hrefused)
        · rw [hvac] at hheld
          cases hheld
  next => cases hste

theorem Leases.acquireDone (h : Leases b) (hste : b.acquireDone=some b') : Leases b' := by
  unfold Bridge.acquireDone at hste
  split at hste
  next result hacg =>
    cases hste
    have hacq:=h.acquires
    rw [hacg,if_neg (fun heq => by cases heq)] at hacq
    refine ⟨?_,fun heq => (by cases heq),h.handed,h.own,h.closed⟩
    rw [if_neg (fun heq => by cases heq)]
    exact hacq
  next => cases hste

theorem Leases.retry (h : Leases b) (hcod : code = "stale_lease" ∨ code = "background_lease")
    (href : (c,proof,code) ∈ b.refusals) : Leases (b.retry c proof code) := by
  unfold Bridge.retry
  split
  next hlea =>
    have hdro : Leases { b with drops := (c,proof)::b.drops } := by
      refine ⟨h.acquires,h.vacant,h.handed,fun drop hdrp => ?_,h.closed⟩
      rcases mem_cons.1 hdrp with rfl | hold
      · exact ⟨code,href⟩
      · exact h.own drop hold
    simp only []
    split
    next => exact (hdro.release _).setCall c _
    next hsta =>
      have hcod : code = "stale_lease" := hcod.resolve_right hsta
      subst hcod
      have hfor : Leases { b with drops := (c,proof)::b.drops, lease := none } := by
        refine ⟨hdro.acquires,fun _ => rfl,fun held hheld => ?_,hdro.own,hdro.closed⟩
        rcases h.handed held hheld with hrel | hgone | hheld
        · exact .inl hrel
        · exact .inr (.inl hgone)
        · rw [hlea] at hheld
          cases hheld
          exact .inr (.inl ⟨c,href⟩)
      exact hfor.ensureLease c 1
  next => exact h.ensureLease c 1

theorem refusal_code (h : r.refusal=some code) : code = "stale_lease" ∨ code = "background_lease" := by
  unfold Reply.refusal at h
  split at h
  next =>
    split at h
    next hmem =>
      cases h
      simpa using hmem
    next => cases h
  next => cases h

theorem Leases.replied (h : Leases b) (replies : List (ℕ × Reply)) (refusals : List (ℕ × BridgeLease × String)) :
    Leases { b with replies, refusals := refusals++b.refusals } := by
  refine ⟨h.acquires,h.vacant,fun proof hpro => ?_,fun drop hdro => ?_,h.closed⟩
  · exact (h.handed proof hpro).imp_right fun hres => hres.imp_left fun ⟨c,href⟩ =>
      ⟨c,mem_append_right _ href⟩
  · obtain ⟨code,href⟩ := h.own drop hdro
    exact ⟨code,mem_append_right _ href⟩

theorem Leases.reply (h : Leases b) (hste : b.reply c r=some b') : Leases b' := by
  unfold Bridge.reply at hste
  split at hste
  next =>
    cases hste
    exact ⟨h.acquires,h.vacant,h.handed,h.own,h.closed⟩
  next attempt proof hpha =>
    have hrec : Leases { b with
        replies := (c,r)::b.replies
        refusals := (r.refusal.map fun code => (c,proof,code)).toList++b.refusals } := h.replied _ _
    simp only [] at hste
    split at hste
    next code hcod =>
      split at hste
      next =>
        cases hste
        exact hrec.setCall c .done
      next =>
        cases hste
        refine hrec.retry (refusal_code hcod) (mem_append_left _ ?_)
        rw [hcod]
        exact mem_singleton_self _
    next =>
      cases hste
      exact hrec.setCall c .done
  next => cases hste

theorem Leases.releaseDone (h : Leases b) (hste : b.releaseDone origin=some b') : Leases b' := by
  unfold Bridge.releaseDone at hste
  split at hste
  next =>
    have hera : Leases { b with releases := b.releases.erase origin } :=
      ⟨h.acquires,h.vacant,h.handed,h.own,h.closed⟩
    simp only [] at hste
    split at hste
    next c _ =>
      split at hste
      next =>
        cases hste
        exact hera.ensureLease c 1
      next => cases hste
    next =>
      cases hste
      exact hera
  next => cases hste

theorem Leases.serverClose (h : Leases b) : Leases b.serverClose := by
  unfold Bridge.serverClose
  split
  next => exact h
  next =>
    have hrel:=h.release .server
    exact ⟨hrel.acquires,hrel.vacant,hrel.handed,hrel.own,fun _ => rfl⟩

theorem serverClose_disconnected (b : Bridge) : b.serverClose.disconnected=true := by
  unfold Bridge.serverClose
  split
  next hdis => exact hdis
  next => rfl

end Leases

section Steps
variable {b b' : Bridge} {c : ℕ}

theorem At.length (h : At b c) (hc : b.calls.length≤c) : b.posts.count c=0 ∧ repliesTo b c=[] := by
  rw [At,getElem?_eq_none hc] at h
  exact h

theorem appended_other (phase : Phase) {k : ℕ} (hk : k≠b.calls.length) :
    (b.calls++[phase])[k]? = b.calls[k]? := by
  rcases Nat.lt_or_gt_of_ne hk with hlt | hgt
  · exact getElem?_append_left hlt
  · have hlen : (b.calls++[phase]).length≤k := by
      rw [length_append,length_singleton]
      omega
    rw [getElem?_eq_none hgt.le,getElem?_eq_none hlen]

theorem call_at (h : ∀ k, At b k) (leased : Bool) : ∀ k, At (b.call leased) k := by
  obtain ⟨hpos,hrep⟩ := (h b.calls.length).length le_rfl
  unfold Bridge.call
  simp only []
  split
  next =>
    refine ensureLease_at (fun k hk => (h k).same (appended_other _ hk) rfl rfl) (by simp) ?_
    exact ⟨hpos,hrep⟩
  next =>
    intro k
    by_cases hk : k=b.calls.length
    · subst hk
      have hpha : (b.calls++[Phase.plain])[b.calls.length]? = some .plain := getElem?_concat_length
      have hpro : Progress ((b.calls.length::b.posts).count b.calls.length) (repliesTo b b.calls.length) .plain :=
        ⟨by rw [count_cons_self,hpos],hrep⟩
      exact at_of_some hpha hpro
    · have hpos : (b.calls.length::b.posts).count k=b.posts.count k :=
        count_cons_of_ne fun heq => hk heq.symm
      refine (h k).same ?_ hpos rfl
      exact appended_other _ hk

theorem joined_progress {phase : Phase} (h : Progress posts replies phase) (result : Option BridgeLease) :
    Progress posts replies (Bridge.joined result phase) := by
  unfold Bridge.joined
  split
  next =>
    split
    next => exact h.holds
    next => exact h.done
  next => exact h

theorem acquireDone_at (h : ∀ k, At b k) (hste : b.acquireDone=some b') : ∀ k, At b' k := by
  unfold Bridge.acquireDone at hste
  split at hste
  next result _ =>
    cases hste
    intro k
    have hk:=h k
    unfold At at hk ⊢
    simp only [getElem?_map]
    cases hpha : b.calls[k]? with
    | none =>
      rw [hpha] at hk
      exact hk
    | some phase =>
      rw [hpha] at hk
      exact joined_progress hk result
  next => cases hste

theorem lt_of_phase {phase : Phase} (h : b.calls[c]? = some phase) : c<b.calls.length :=
  (List.getElem?_eq_some_iff.1 h).1

theorem post_at (h : ∀ k, At b k) (hste : b.post c=some b') : ∀ k, At b' k := by
  unfold Bridge.post at hste
  split at hste
  next attempt proof hpha =>
    cases hste
    refine calls_set (fun k _ => h k) (lt_of_phase hpha) rfl (fun k hk => count_cons_of_ne fun heq => hk heq.symm)
      (fun _ _ => rfl) ?_
    have hpro:=(h c).of_some hpha
    show Progress ((c::b.posts).count c) (repliesTo b c) _
    rw [count_cons_self]
    cases attempt with
    | zero => exact ⟨by rw [hpro.1],hpro.2⟩
    | succ => exact ⟨by rw [hpro.1],hpro.2⟩
  next => cases hste

theorem replied_done (h : ∀ k, At b k) {phase : Phase} (hpha : b.calls[c]? = some phase)
    (hcal : b'.calls=b.calls.set c .done) (hpos : b'.posts=b.posts) (hrep : b'.replies=(c,r)::b.replies)
    (hpro : Progress (b.posts.count c) (r::repliesTo b c) .done) : ∀ k, At b' k := by
  refine calls_set (fun k _ => h k) (lt_of_phase hpha) hcal (fun k _ => by rw [hpos])
    (fun k hk => repliesTo_other hrep hk) ?_
  rw [hpos,repliesTo_self hrep]
  exact hpro

theorem release_calls (b : Bridge) (origin : Origin) :
    (b.release origin).calls=b.calls ∧ (b.release origin).posts=b.posts ∧ (b.release origin).replies=b.replies := by
  unfold Bridge.release
  split
  next => exact ⟨rfl,rfl,rfl⟩
  next => exact ⟨rfl,rfl,rfl⟩

theorem at_of_calls (h : ∀ k, At b k) (hcal : b'.calls=b.calls) (hpos : b'.posts=b.posts)
    (hrep : b'.replies=b.replies) : ∀ k, At b' k :=
  fun k => (h k).same (by rw [hcal]) (by rw [hpos]) (by rw [repliesTo,hrep,repliesTo])

theorem retry_at {proof : BridgeLease} (h : ∀ k, k≠c → At b k) (hc : c<b.calls.length)
    (hpro : Progress (b.posts.count c) (repliesTo b c) .releasing) : ∀ k, At (b.retry c proof code) k := by
  unfold Bridge.retry
  split
  next hlea =>
    simp only []
    split
    next =>
      obtain ⟨hcal,hpos,hrep⟩ :=
        release_calls { b with drops := (c,proof)::b.drops } (.call c)
      refine calls_set h hc (by rw [Bridge.setCall,hcal]) (fun k _ => by rw [Bridge.setCall,hpos])
        (fun k _ => by rw [repliesTo,Bridge.setCall,hrep,repliesTo]) ?_
      rw [repliesTo,Bridge.setCall,hpos,hrep]
      exact hpro
    next => exact ensureLease_at (b := { b with drops := (c,proof)::b.drops, lease := none }) h hc hpro
  next => exact ensureLease_at h hc hpro

theorem reply_at (h : ∀ k, At b k) (hste : b.reply c r=some b') : ∀ k, At b' k := by
  unfold Bridge.reply at hste
  split at hste
  next hpha =>
    cases hste
    have hpro:=(h c).of_some hpha
    exact replied_done h hpha rfl rfl rfl ⟨hpro.1.le.trans (by omega),fun h2 => by rw [hpro.1] at h2; omega⟩
  next attempt proof hpha =>
    have hpro:=(h c).of_some hpha
    simp only [] at hste
    split at hste
    next code hcod =>
      have href : r.refusal.isSome=true := by rw [hcod]; rfl
      split at hste
      next haga =>
        cases hste
        refine replied_done h hpha rfl rfl rfl ?_
        cases attempt with
        | zero => omega
        | succ =>
          obtain ⟨hpos,first,hrep,hfir⟩ := hpro
          exact ⟨hpos.le,fun _ => ⟨first,by rw [hrep]; rfl,hfir⟩⟩
      next hfir =>
        cases hste
        have hzer : attempt=0 := by omega
        subst hzer
        obtain ⟨hpos,hrep⟩ := hpro
        refine retry_at (fun k hk => ?_) (lt_of_phase hpha) ⟨hpos,r,?_,href⟩
        · exact (h k).same rfl rfl (repliesTo_other rfl hk)
        · rw [repliesTo_self rfl,hrep]
    next =>
      cases hste
      refine replied_done h hpha rfl rfl rfl ?_
      cases attempt with
      | zero => exact ⟨hpro.1.le.trans (by omega),fun h2 => by rw [hpro.1] at h2; omega⟩
      | succ =>
        obtain ⟨hpos,first,hrep,hfir⟩ := hpro
        exact ⟨hpos.le,fun _ => ⟨first,by rw [hrep]; rfl,hfir⟩⟩
  next => cases hste

theorem releaseDone_at (h : ∀ k, At b k) (hste : b.releaseDone origin=some b') : ∀ k, At b' k := by
  unfold Bridge.releaseDone at hste
  split at hste
  next =>
    simp only [] at hste
    split at hste
    next c _ =>
      split at hste
      next hpha =>
        cases hste
        have hpro : Progress (b.posts.count c) (repliesTo b c) .releasing := (h c).of_some hpha
        exact ensureLease_at (fun k _ => h k) (lt_of_phase hpha) hpro
      next => cases hste
    next =>
      cases hste
      exact h
  next => cases hste

theorem serverClose_at (h : ∀ k, At b k) : ∀ k, At b.serverClose k := by
  unfold Bridge.serverClose
  split
  next => exact h
  next =>
    obtain ⟨hcal,hpos,hrep⟩ := release_calls b .server
    exact at_of_calls h hcal hpos hrep

end Steps

section Runs
variable {b b' : Bridge} {action : Action}

structure Inv (b : Bridge) : Prop where
  calls : ∀ k, At b k
  leases : Leases b

theorem inv_initial : Inv initialBridge where
  calls _ := ⟨rfl,rfl⟩
  leases :=
    ⟨rfl,fun _ => rfl,fun _ h => (by cases h),fun _ h => (by cases h),fun h => (by cases h)⟩

theorem Leases.call (h : Leases b) (leased : Bool) : Leases (b.call leased) := by
  unfold Bridge.call
  simp only []
  split
  next =>
    have hadd : Leases { b with
        late := b.late || b.transport != .opened
        calls := b.calls++[.acquiring 0] } := ⟨h.acquires,h.vacant,h.handed,h.own,h.closed⟩
    exact hadd.ensureLease _ 0
  next => exact ⟨h.acquires,h.vacant,h.handed,h.own,h.closed⟩

theorem Leases.post {c : ℕ} (h : Leases b) (hste : b.post c=some b') : Leases b' := by
  unfold Bridge.post at hste
  split at hste
  next =>
    cases hste
    exact ⟨h.acquires,h.vacant,h.handed,h.own,h.closed⟩
  next => cases hste

theorem transportClose_inv (h : Inv b) (hste : b.transportClose=some b') : Inv b' := by
  unfold Bridge.transportClose at hste
  split at hste
  next =>
    cases hste
    split
    next => exact ⟨h.calls,h.leases.acquires,h.leases.vacant,h.leases.handed,h.leases.own,fun heq => nomatch heq⟩
    next =>
      obtain ⟨hcal,hpos,hrep⟩ := release_calls b .transport
      have hrel:=h.leases.release .transport
      exact ⟨at_of_calls h.calls hcal hpos hrep,hrel.acquires,hrel.vacant,hrel.handed,
        hrel.own,fun heq => nomatch heq⟩
  next => cases hste

theorem transportClosed_inv (h : Inv b) (hste : b.transportClosed=some b') : Inv b' := by
  unfold Bridge.transportClosed at hste
  split at hste
  next =>
    cases hste
    have hclo:=h.leases.serverClose
    exact ⟨at_of_calls (serverClose_at h.calls) rfl rfl rfl,hclo.acquires,hclo.vacant,hclo.handed,
      hclo.own,fun _ => serverClose_disconnected b⟩
  next => cases hste

theorem acquired_at (h : ∀ k, At b k) (hste : b.acquired result=some b') : ∀ k, At b' k := by
  unfold Bridge.acquired at hste
  split at hste
  next =>
    cases hste
    exact at_of_calls h rfl rfl rfl
  next => cases hste

theorem inv_step (h : Inv b) (hste : b.step action=some b') : Inv b' := by
  cases action with
  | call leased =>
    cases hste
    exact ⟨call_at h.calls leased,h.leases.call leased⟩
  | acquired result => exact ⟨acquired_at h.calls hste,h.leases.acquired hste⟩
  | acquireDone => exact ⟨acquireDone_at h.calls hste,h.leases.acquireDone hste⟩
  | post c => exact ⟨post_at h.calls hste,h.leases.post hste⟩
  | reply c r => exact ⟨reply_at h.calls hste,h.leases.reply hste⟩
  | releaseDone origin => exact ⟨releaseDone_at h.calls hste,h.leases.releaseDone hste⟩
  | serverClose =>
    cases hste
    exact ⟨serverClose_at h.calls,h.leases.serverClose⟩
  | transportClose => exact transportClose_inv h hste
  | transportClosed => exact transportClosed_inv h hste

theorem inv_reachable (h : system.Reachable b) : Inv b := by
  refine h.invariant (fun s hs => ?_) fun _ _ _ hs hste => ?_
  · rw [show s=initialBridge from hs]
    exact inv_initial
  · exact inv_step hs hste

theorem acquires_le_one (h : Leases b) : b.acquires≤1 := by
  rw [h.acquires]
  split
  next => exact le_rfl
  next => exact Nat.zero_le 1

def Vacated (b : Bridge) : Prop := b.disconnected=true → b.lease=none

def Keeps (b b' : Bridge) : Prop := b'.disconnected=b.disconnected ∧ (b'.lease=b.lease ∨ b'.lease=none)

theorem Keeps.trans {b'' : Bridge} (h : Keeps b b') (h' : Keeps b' b'') : Keeps b b'' := by
  refine ⟨h'.1.trans h.1,?_⟩
  rcases h'.2 with hsam | hnone
  · rw [hsam]
    exact h.2
  · exact .inr hnone

theorem Keeps.vacated (h : Keeps b b') (hb : Vacated b) : Vacated b' := by
  intro hdis
  rcases h.2 with hsam | hnone
  · rw [hsam]
    exact hb (h.1.symm.trans hdis)
  · exact hnone

theorem ensureLease_keeps (b : Bridge) (c attempt : ℕ) : Keeps b (b.ensureLease c attempt) := by
  unfold Bridge.ensureLease
  split
  next => exact ⟨rfl,.inl rfl⟩
  next => split <;> exact ⟨rfl,.inl rfl⟩

theorem release_keeps (b : Bridge) (origin : Origin) : Keeps b (b.release origin) := by
  refine ⟨?_,.inr (release_lease b origin)⟩
  unfold Bridge.release
  split
  next => rfl
  next => rfl

theorem retry_keeps (b : Bridge) (c : ℕ) (proof : BridgeLease) (code : String) : Keeps b (b.retry c proof code) := by
  unfold Bridge.retry
  split
  next =>
    simp only []
    split
    next => exact (release_keeps { b with drops := (c,proof)::b.drops } (.call c)).trans ⟨rfl,.inl rfl⟩
    next =>
      have hfor : Keeps b { b with drops := (c,proof)::b.drops, lease := none } := ⟨rfl,.inr rfl⟩
      exact hfor.trans (ensureLease_keeps _ c 1)
  next => exact ensureLease_keeps b c 1

theorem call_keeps (b : Bridge) (leased : Bool) : Keeps b (b.call leased) := by
  unfold Bridge.call
  simp only []
  split
  next =>
    have hadd : Keeps b { b with
        late := b.late || b.transport != .opened
        calls := b.calls++[.acquiring 0] } := ⟨rfl,.inl rfl⟩
    exact hadd.trans (ensureLease_keeps _ _ 0)
  next => exact ⟨rfl,.inl rfl⟩

theorem acquireDone_keeps (hste : b.acquireDone=some b') : Keeps b b' := by
  unfold Bridge.acquireDone at hste
  split at hste
  next =>
    cases hste
    exact ⟨rfl,.inl rfl⟩
  next => cases hste

theorem post_keeps {c : ℕ} (hste : b.post c=some b') : Keeps b b' := by
  unfold Bridge.post at hste
  split at hste
  next =>
    cases hste
    exact ⟨rfl,.inl rfl⟩
  next => cases hste

theorem reply_keeps {c : ℕ} (hste : b.reply c r=some b') : Keeps b b' := by
  unfold Bridge.reply at hste
  split at hste
  next =>
    cases hste
    exact ⟨rfl,.inl rfl⟩
  next proof _ =>
    have hrec : Keeps b { b with
        replies := (c,r)::b.replies
        refusals := (r.refusal.map fun code => (c,proof,code)).toList++b.refusals } := ⟨rfl,.inl rfl⟩
    simp only [] at hste
    split at hste
    next code _ =>
      split at hste
      next =>
        cases hste
        exact ⟨rfl,.inl rfl⟩
      next =>
        cases hste
        exact hrec.trans (retry_keeps _ c proof code)
    next =>
      cases hste
      exact ⟨rfl,.inl rfl⟩
  next => cases hste

theorem releaseDone_keeps (hste : b.releaseDone origin=some b') : Keeps b b' := by
  unfold Bridge.releaseDone at hste
  split at hste
  next =>
    simp only [] at hste
    split at hste
    next c _ =>
      split at hste
      next =>
        cases hste
        have hera : Keeps b { b with releases := b.releases.erase (.call c) } := ⟨rfl,.inl rfl⟩
        exact hera.trans (ensureLease_keeps _ c 1)
      next => cases hste
    next =>
      cases hste
      exact ⟨rfl,.inl rfl⟩
  next => cases hste

theorem serverClose_vacated (h : Vacated b) : Vacated b.serverClose := by
  unfold Bridge.serverClose
  split
  next => exact h
  next => exact fun _ => release_lease b .server

theorem vacated_step (h : Vacated b) (hint : inTime b action=true) (hste : b.step action=some b') :
    Vacated b' := by
  cases action with
  | call leased =>
    cases hste
    exact (call_keeps b leased).vacated h
  | acquired result =>
    -- a proof may be handed over only before the server closes
    replace hste : b.acquired result=some b' := hste
    unfold Bridge.acquired at hste
    split at hste
    next =>
      cases hste
      intro hdis
      replace hdis : b.disconnected=true := hdis
      cases result with
      | none => exact h hdis
      | some proof =>
        rw [inTime,hdis] at hint
        cases hint
    next => cases hste
  | acquireDone => exact (acquireDone_keeps hste).vacated h
  | post c => exact (post_keeps hste).vacated h
  | reply c r => exact (reply_keeps hste).vacated h
  | releaseDone origin => exact (releaseDone_keeps hste).vacated h
  | serverClose =>
    cases hste
    exact serverClose_vacated h
  | transportClose =>
    replace hste : b.transportClose=some b' := hste
    unfold Bridge.transportClose at hste
    split at hste
    next =>
      cases hste
      split
      next => exact h
      next => exact (release_keeps b .transport).vacated h
    next => cases hste
  | transportClosed =>
    replace hste : b.transportClosed=some b' := hste
    unfold Bridge.transportClosed at hste
    split at hste
    next =>
      cases hste
      exact serverClose_vacated h
    next => cases hste

end Runs

/-- A bridge to which no proof is handed after its server has closed neither replays work nor leaks leases. -/
theorem bridge_transparent {b b' : Bridge} {actions : List Action} (hinitial : system.initial b)
    (hrun : system.RunWhere (fun b action => inTime b action=true) b actions b') : Transparent b' := by
  have hinv : Inv b' := inv_reachable ⟨b,actions,hinitial,hrun.run⟩
  have hvac : Vacated b' := by
    refine hrun.preserves (fun s a t hs hint hste => vacated_step hs hint hste) ?_
    rw [show b=initialBridge from hinitial]
    exact fun hdis => nomatch hdis
  refine ⟨fun c => (hinv.calls c).once,acquires_le_one hinv.leases,hinv.leases.own,fun hclo _ _ proof hpro => ?_⟩
  have hnon : b'.lease=none := hvac (hinv.leases.closed hclo)
  rcases hinv.leases.handed proof hpro with hrel | hrefused | hheld
  · exact .inl hrel
  · exact .inr hrefused
  · rw [hnon] at hheld
    cases hheld

def exampleProof : BridgeLease := ⟨"lease-1",1,"epoch-1"⟩

theorem bridge_transparent_closed : ∃ b', (∃ proof ∈ b'.handed, proof ∈ b'.released) ∧ b'.transport=.closed ∧
    Transparent b' := by
  have hexe : (system.execWhere inTime initialBridge
      [.call true,.acquired (some exampleProof),.acquireDone,.post 0,.reply 0 (.answered true none none),
        .transportClose,.releaseDone .transport,.transportClosed]).map
      (fun b => (b.handed,b.released,b.transport))=some ([exampleProof],[exampleProof],.closed) := by
    decide
  rw [map_eq_some_iff] at hexe
  obtain ⟨b',hrun,hval⟩ := hexe
  simp only [Prod.mk.injEq] at hval
  obtain ⟨hhan,hrel,hclo⟩ := hval
  refine ⟨b',⟨exampleProof,?_,?_⟩,hclo,bridge_transparent rfl (TransitionSystem.runWhere_of_exec hrun)⟩
  · rw [hhan]
    exact mem_singleton_self _
  · rw [hrel]
    exact mem_singleton_self _

def lateRun : List Action :=
  [.call true,.transportClose,.transportClosed,.acquired (some exampleProof),.acquireDone,.post 0,
    .reply 0 (.answered true none none)]

theorem late_lease_leaks : ¬ ∀ b, system.Reachable b → Transparent b := by
  intro h
  have hlef : (system.exec initialBridge lateRun).map (fun b => (b.handed,b.released,b.refusals)) =
      some ([exampleProof],[],[]) := by
    decide
  have hend : (system.exec initialBridge lateRun).map (fun b => (b.transport,b.late))=some (.closed,false) := by
    decide
  have hidl : (system.exec initialBridge lateRun).map (fun b => (b.acquires,b.acquiring,b.releases,b.calls)) =
      some (0,none,[],[.done]) := by
    decide
  rw [map_eq_some_iff] at hlef
  obtain ⟨b,hrun,hval⟩ := hlef
  rw [hrun,map_some,Option.some.injEq] at hend hidl
  simp only [Prod.mk.injEq] at hval hend hidl
  obtain ⟨hhan,hrel,href⟩ := hval
  obtain ⟨hclo,hlat⟩ := hend
  obtain ⟨hacq,hacg,hres,hcal⟩ := hidl
  have hset : Settled b := by
    refine ⟨hacq,hacg,hres,fun phase hpha => ?_⟩
    rw [hcal,mem_singleton] at hpha
    exact hpha
  have hpro : exampleProof ∈ b.handed := by
    rw [hhan]
    exact mem_singleton_self _
  rcases (h b ⟨_,_,rfl,TransitionSystem.run_of_exec hrun⟩).returned hclo hlat hset exampleProof hpro with
    hmem | ⟨c,hmem⟩
  · rw [hrel] at hmem
    cases hmem
  · rw [href] at hmem
    cases hmem

end Qubicl.Cli.LeaseBridge
