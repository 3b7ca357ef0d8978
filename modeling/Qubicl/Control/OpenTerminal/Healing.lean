import Qubicl.Control.OpenTerminal.Dispatch

/-!
# A request replaces a proof that is no longer held

While nobody else takes the lease or gives it away, a request that is refused with the proof its credential remembers
acquires another, and works with that one.
-/

namespace Qubicl.Control.OpenTerminal
open Foundation LeaseManager List Option

/-- The proof is verified, for interactive input too, and goes on being so. -/
structure Live (m : LeaseManager) (proof : LeaseProof) : Prop where
  human : m.human=false
  epoch : proof.epoch=m.epoch
  held : ∃ lease, m.lease=some lease ∧ lease.toLeaseProof=proof ∧ m.now<lease.expiresAt ∧ 0<lease.durationMs ∧
    lease.backgroundOnly=false

/-- No lease is held, nothing is left to be fenced, and nobody waits. -/
structure Free (m : LeaseManager) : Prop where
  lease : m.lease=none
  revocation : m.revocation=none
  failedRevocations : m.failedRevocations=[]
  waiters : m.waiters=[]

section Manager
variable {m m' : LeaseManager} {proof : LeaseProof}

theorem Live.expireIfNeeded (h : Live m proof) : m.expireIfNeeded=m := by
  obtain ⟨lease,hlea,-,hexp,-⟩ := h.held
  unfold LeaseManager.expireIfNeeded
  rw [hlea]
  exact if_pos hexp

theorem Free.expireIfNeeded (h : Free m) : m.expireIfNeeded=m := by
  unfold LeaseManager.expireIfNeeded
  rw [h.lease]

theorem expireIfNeeded_human (m : LeaseManager) : m.expireIfNeeded.human=m.human := by
  unfold LeaseManager.expireIfNeeded
  split
  · rfl
  · split <;> rfl

theorem verify_human (proof : LeaseProof) (renewActivity : Bool) (m : LeaseManager) :
    (verify proof renewActivity m).1.human=m.human := by
  have hexp:=expireIfNeeded_human m
  unfold verify
  dsimp only
  split
  · exact hexp
  · split
    · exact hexp
    · split <;> exact hexp

theorem Live.verify (h : Live m proof) (renewActivity : Bool) :
    ∃ m', LeaseManager.verify proof renewActivity m=(m',.ok proof) ∧ Live m' proof := by
  obtain ⟨lease,hlea,rfl,hexp,hdur,hbac⟩ := h.held
  have hmat : ¬(lease.epoch≠m.epoch ∨ lease.id≠lease.id ∨ lease.generation≠lease.generation) := by
    simp [h.epoch]
  unfold LeaseManager.verify
  dsimp only
  rw [h.expireIfNeeded,hlea]
  dsimp only
  rw [if_neg hmat]
  cases renewActivity with
  | false => exact ⟨_,rfl,h⟩
  | true =>
    refine ⟨_,rfl,h.human,h.epoch,_,rfl,rfl,?_,hdur,hbac⟩
    show m.now < m.now+lease.durationMs
    omega

theorem Live.verifyInteractive (h : Live m proof) :
    ∃ m', LeaseManager.verifyInteractive proof m=(m',.ok proof) ∧ Live m' proof := by
  obtain ⟨m',hver,hliv⟩ := h.verify false
  obtain ⟨lease,hlea,-,-,-,hbac⟩ := hliv.held
  refine ⟨m',?_,hliv⟩
  unfold LeaseManager.verifyInteractive
  rw [hver]
  dsimp only
  rw [hliv.human,hlea]
  simp [hbac]

theorem Free.verify (h : Free m) (renewActivity : Bool) :
    LeaseManager.verify proof renewActivity m=(m,.error staleLease) := by
  unfold LeaseManager.verify
  dsimp only
  rw [h.expireIfNeeded,h.lease]

theorem acquire_cases (hhum : m.human=false) (actor : CompatibilityActor) (id : Base64Url) :
    ∃ m' result, acquire leaseSeconds (some actor.actor) id m=(m',result) ∧ m'.human=false ∧
      (∀ lease, result=.ok lease → Live m' lease.toLeaseProof) ∧
        (∀ error, result=.error error → error.code ≠ "stale_lease" ∧ ¬Free m) := by
  have href : ∀ error : QubiclError, (error.code ≠ "stale_lease") → ¬Free m →
      ∀ error', (Except.error error : Except QubiclError PublicLease)=.error error' →
        error'.code ≠ "stale_lease" ∧ ¬Free m := by
    intro error hcod hfre error' heq
    cases heq
    exact ⟨hcod,hfre⟩
  have hexp : m.expireIfNeeded.human=false := (expireIfNeeded_human m).trans hhum
  unfold acquire
  dsimp only
  split
  next hrev =>
    refine ⟨_,_,rfl,hexp,fun _ heq => (by cases heq),href _ (by decide) fun hfre => ?_⟩
    rw [hfre.expireIfNeeded,hfre.revocation] at hrev
    cases hrev
  split
  next hfai =>
    refine ⟨_,_,rfl,hexp,fun _ heq => (by cases heq),href _ (by decide) fun hfre => ?_⟩
    rw [hfre.expireIfNeeded,hfre.failedRevocations] at hfai
    cases hfai
  split
  next hlea =>
    have hcod : m.expireIfNeeded.unavailableError.2.code = "lease_unavailable" := rfl
    refine ⟨_,_,rfl,(expireIfNeeded_human _).trans hexp,fun _ heq => (by cases heq),
      href _ (by rw [hcod]; decide) fun hfre => ?_⟩
    rw [hfre.expireIfNeeded,hfre.lease] at hlea
    cases hlea
  split
  next hwai =>
    refine ⟨_,_,rfl,hexp,fun _ heq => (by cases heq),href _ ?_ fun hfre => ?_⟩
    · exact (by decide : (leaseQueueActive 0).code ≠ "stale_lease")
    · rw [hfre.expireIfNeeded,hfre.waiters] at hwai
      cases hwai
  · have hval : (some actor.actor).mapM validateLeaseActor=.ok (some actor.actor) := by
      show (some <$> validateLeaseActor actor.actor : Except QubiclError (Option LeaseActor))=_
      rw [actor.valid]
      rfl
    unfold grant
    dsimp only
    rw [hval]
    refine ⟨_,_,rfl,hexp,?_,fun _ heq => (by cases heq)⟩
    intro lease heq
    cases heq
    refine ⟨hexp,rfl,_,rfl,rfl,?_,?_,hexp⟩
    · show m.expireIfNeeded.now < m.expireIfNeeded.now+leaseSeconds*1000
      unfold leaseSeconds
      omega
    · show 0<leaseSeconds*1000
      decide

theorem release_human (proof : LeaseProof) (m : LeaseManager) : (release proof m).1.human=m.human := by
  have hver:=verify_human proof false m
  unfold release
  split
  next href =>
    rw [href] at hver
    exact hver
  next hok =>
    rw [hok] at hver
    exact hver

end Manager

/-- The proof comes from an acquisition of the credential after the first `n`. -/
def Fresh (n : ℕ) (acquisitions : List Acquisition) (key : String) (proof : LeaseProof) : Prop :=
  ∃ a : ℕ, ∃ acquisition, n≤a ∧ acquisitions[a]? = some acquisition ∧ acquisition.key=key ∧
    acquisition.result=.ok proof

def FreshUse (n : ℕ) (key : String) (w : Compatibility) : Prop :=
  ∃ proof, (key,proof) ∈ w.uses ∧ Fresh n w.acquisitions key proof

/-- The action has been invoked, or the tool has begun to work. -/
def Request.Begun (r : Request) : Prop := 0<r.invoked ∨ true ∈ r.dispatches

def Remembers (w : Compatibility) (i : ℕ) (proof : LeaseProof) : Prop :=
  ∃ state, w.states[i]? = some state ∧ state.acquiring=none ∧ ∀ kept, state.proof=some kept → kept=proof

/- Where a request can be that began when nobody interfered; `free` says that the lease was free then. -/
inductive Course (free : Prop) (n : ℕ) (w : Compatibility) (r : Request) : Phase → Prop
  | acquiring {attempt a : ℕ} {acquisition : Acquisition} {state : CompatibilityLeaseState}
      (promise : w.acquisitions[a]? = some acquisition) (new : n≤a) (own : acquisition.key=r.key)
      (place : acquisition.state=r.state) (found : w.states[r.state]? = some state)
      (waits : state.acquiring=if acquisition.stage=.finished then none else some a)
      (kept : ∀ proof, state.proof=some proof → acquisition.result=.ok proof)
      (granted : ∀ proof, acquisition.result=.ok proof → Live w.manager proof)
      (refused : ∀ error, acquisition.result=.error error → error.code ≠ "stale_lease" ∧ ¬free) :
      Course free n w r (.acquiring attempt a)
  | remembered {proof : LeaseProof} (kept : Remembers w r.state proof) (vacant : free → Free w.manager) :
      Course free n w r (.holding 0 proof)
  | holding {attempt : ℕ} {proof : LeaseProof} (kept : Remembers w r.state proof) (live : Live w.manager proof)
      (fresh : Fresh n w.acquisitions r.key proof) : Course free n w r (.holding attempt proof)
  | queued {attempt : ℕ} {proof : LeaseProof} {stage : Stage} {rest : List Stage} (live : Live w.manager proof)
      (fresh : Fresh n w.acquisitions r.key proof) (used : (r.key,proof) ∈ w.uses) :
      Course free n w r (.queued attempt proof stage rest)
  | unsure {proof : LeaseProof} {stage : Stage} {rest : List Stage} (kept : Remembers w r.state proof) (taken : ¬free) :
      Course free n w r (.queued 0 proof stage rest)
  | rejected {attempt : ℕ} {proof : LeaseProof} {error : QubiclError} (kept : Remembers w r.state proof)
      (stale : error.code = "stale_lease" → attempt=0 ∧ refusesProof error=true)
      (vacant : free → error.code = "stale_lease" ∧ Free w.manager) : Course free n w r (.rejected attempt proof error)
  | releasing {result : Except QubiclError ℕ} {state : CompatibilityLeaseState} (found : w.states[r.state]? = some state)
      (forgotten : state.proof=none) (idle : state.acquiring=none) (taken : ¬free) :
      Course free n w r (.releasing result)
  | ended {outcome : Outcome} (fresh : ∀ error, outcome=.failed error → error.code ≠ "stale_lease") (taken : ¬free) :
      Course free n w r (.ended outcome)

structure OnCourse (free : Prop) (n c : ℕ) (w : Compatibility) (r : Request) : Prop where
  request : w.requests[c]? = some r
  human : w.manager.human=false
  new : n≤w.acquisitions.length
  course : (r.Begun ∧ (free → FreshUse n r.key w)) ∨
    (((∃ outcome, r.phase=.ended outcome) ∨ w.leases.lookup r.key=some r.state) ∧ Course free n w r r.phase)

variable {a attempt i : ℕ} {acquisition : Acquisition} {acquisitions acquisitions' : List Acquisition}
  {state : CompatibilityLeaseState} {draw : Draw} {refusal : Option QubiclError} {action : CompatibilityAction}

section Course
variable {free : Prop} {n c : ℕ} {w w' : Compatibility} {r : Request} {phase : Phase}

theorem Extends.fresh {key : String} {proof : LeaseProof} (h : Extends acquisitions acquisitions')
    (hfre : Fresh n acquisitions key proof) : Fresh n acquisitions' key proof := by
  obtain ⟨a,acquisition,hnew,ha,hkey,hres⟩ := hfre
  obtain ⟨stage,ha'⟩ := h a acquisition ha
  exact ⟨a,_,hnew,ha',hkey,hres⟩

theorem Extends.length (h : Extends acquisitions acquisitions') : acquisitions.length≤acquisitions'.length := by
  by_contra hlt
  have hlt' : acquisitions'.length<acquisitions.length := by omega
  obtain ⟨stage,ha⟩ := h acquisitions'.length _ (getElem?_eq_getElem hlt')
  rw [getElem?_eq_none (Nat.le_refl _)] at ha
  cases ha

theorem Course.stable (h : Course free n w r phase) (hsta : w'.states[r.state]? = w.states[r.state]?)
    (hpre : ∀ attempt a, phase=.acquiring attempt a → w'.acquisitions[a]? = w.acquisitions[a]?)
    (hext : Extends w.acquisitions w'.acquisitions) (huse : ∀ use ∈ w.uses, use ∈ w'.uses)
    (hliv : ∀ proof, Live w.manager proof → Live w'.manager proof) (hfre : Free w.manager → Free w'.manager) :
    Course free n w' r phase := by
  have hrem : ∀ {proof}, Remembers w r.state proof → Remembers w' r.state proof := by
    rintro proof ⟨state,hfou,hidl,hkep⟩
    exact ⟨state,hsta.trans hfou,hidl,hkep⟩
  cases h with
  | acquiring promise new own place found waits kept granted refused =>
    exact .acquiring ((hpre _ _ rfl).trans promise) new own place (hsta.trans found) waits kept
      (fun proof hpro => hliv proof (granted proof hpro)) refused
  | remembered kept vacant => exact .remembered (hrem kept) fun h => hfre (vacant h)
  | holding kept live fresh => exact .holding (hrem kept) (hliv _ live) (hext.fresh fresh)
  | queued live fresh used => exact .queued (hliv _ live) (hext.fresh fresh) (huse _ used)
  | unsure kept taken => exact .unsure (hrem kept) taken
  | rejected kept stale vacant => exact .rejected (hrem kept) stale fun h => ⟨(vacant h).1,hfre (vacant h).2⟩
  | releasing found forgotten idle taken => exact .releasing (hsta.trans found) forgotten idle taken
  | ended fresh taken => exact .ended fresh taken

theorem waiting (hw : Books w) (hsta : w.states[r.state]? = some state) (ha : w.acquisitions[a]? = some acquisition)
    (hpla : acquisition.state=r.state) (hope : acquisition.stage≠.finished) : state.acquiring=some a := by
  obtain ⟨state',hsta',-,hwai⟩ := hw.acquired a acquisition ha
  rw [hpla] at hsta'
  obtain rfl := Option.some.inj (hsta.symm.trans hsta')
  exact hwai.resolve_left hope

theorem promise_course (h : Course free n w r phase) (hw : Books w) {stage : AcquisitionStage}
    {f : CompatibilityLeaseState → CompatibilityLeaseState} (ha : w.acquisitions[a]? = some acquisition)
    (hope : acquisition.stage≠.finished)
    (hwai : ∀ state, state.acquiring=some a → (f state).acquiring=if stage=.finished then none else some a)
    (hkep : ∀ state proof, (f state).proof=some proof → state.proof=some proof ∨ acquisition.result=.ok proof) :
    Course free n (Compatibility.modifyState acquisition.state f { w with
      acquisitions := w.acquisitions.modify a fun acquisition => { acquisition with stage := stage } }) r phase := by
  have hext:=extends_stage w.acquisitions a stage
  by_cases hpla : acquisition.state=r.state
  · have hidl : ∀ {state}, w.states[r.state]? = some state → state.acquiring=none → False := by
      intro state hfou hnon
      rw [waiting hw hfou ha hpla hope] at hnon
      cases hnon
    cases h with
    | @acquiring attempt b acquisition' state promise new own place found waits kept granted refused =>
      -- it is the promise that the request waits for
      have hsam:=waiting hw found ha hpla hope
      rw [waits] at hsam
      have hb : b=a := by
        split at hsam
        · cases hsam
        · exact Option.some.inj hsam
      subst hb
      obtain rfl := Option.some.inj (promise.symm.trans ha)
      have hmod : (w.acquisitions.modify b fun acquisition => { acquisition with stage := stage })[b]? =
          some { acquisition' with stage := stage } := by
        rw [getElem?_modify_eq,ha]
        rfl
      have hfou : (w.states.modify acquisition'.state f)[r.state]? = some (f state) := by
        rw [hpla,getElem?_modify_eq,found]
        rfl
      refine .acquiring hmod new own place hfou ?_ ?_ granted refused
      · exact hwai state (waiting hw found ha hpla hope)
      · intro proof hpro
        rcases hkep state proof hpro with hold | hnew
        · exact kept proof hold
        · exact hnew
    | remembered kept vacant =>
      obtain ⟨state,hfou,hnon,-⟩ := kept
      exact (hidl hfou hnon).elim
    | holding kept live fresh =>
      obtain ⟨state,hfou,hnon,-⟩ := kept
      exact (hidl hfou hnon).elim
    | queued live fresh used => exact .queued live (hext.fresh fresh) used
    | unsure kept taken =>
      obtain ⟨state,hfou,hnon,-⟩ := kept
      exact (hidl hfou hnon).elim
    | rejected kept stale vacant =>
      obtain ⟨state,hfou,hnon,-⟩ := kept
      exact (hidl hfou hnon).elim
    | releasing found forgotten idle taken => exact (hidl found idle).elim
    | ended fresh taken => exact .ended fresh taken
  · refine h.stable (getElem?_modify_ne _ _ hpla) ?_ hext (fun _ huse => huse) (fun _ hliv => hliv)
      fun hfre => hfre
    intro attempt b hpha
    subst hpha
    cases h with
    | acquiring promise new own place found waits kept granted refused =>
      refine getElem?_modify_ne _ _ fun heq => hpla ?_
      subst heq
      obtain rfl := Option.some.inj (promise.symm.trans ha)
      exact place

end Course

/-- Nobody takes the lease of an agent away, and nobody takes the lease while it is free. -/
structure Undisturbed (m m' : LeaseManager) : Prop where
  human : m'.human=false
  live : ∀ proof, Live m proof → Live m' proof
  free : Free m → Free m'

/-- Only one request goes on; what it is refused for otherwise does not look like a lost lease. -/
def Alone (c : ℕ) (w : Compatibility) : CompatibilityAction → Prop
  | .lease action => ∀ m', leaseStep w.manager action=some m' → Undisturbed w.manager m'
  | .storeProof _ | .finishAcquiring _ => True
  | .joined c' | .turn c' | .advance c' | .finish c' _ | .caught c' _ | .released c' _ => c'=c
  | .go c' refusal _ => c'=c ∧ ∀ error ∈ refusal, error.code ≠ "stale_lease"
  | .start .. | .shutdown => False

/-- No call fails before it comes to its lease. -/
def Unrefused : CompatibilityAction → Prop
  | .go _ refusal draw => refusal=none ∧ draw.refusal=none
  | .caught _ draw | .released _ draw => draw.refusal=none
  | _ => True

section OnCourse
variable {free : Prop} {n c : ℕ} {w w' : Compatibility} {r : Request}

theorem getElem?_modify_self {α : Type} {l : List α} {f : α → α} {x : α} (h : l[i]? = some x) :
    (l.modify i f)[i]? = some (f x) := by
  rw [getElem?_modify_eq,h]
  rfl

theorem FreshUse.mono {key : String} (h : FreshUse n key w) (hext : Extends w.acquisitions w'.acquisitions)
    (huss : ∀ use ∈ w.uses, use ∈ w'.uses) : FreshUse n key w' := by
  obtain ⟨proof,huse,hfre⟩ := h
  exact ⟨proof,huss _ huse,hext.fresh hfre⟩

theorem lease_onCourse (h : OnCourse free n c w r) {m' : LeaseManager} (hm : Undisturbed w.manager m') :
    OnCourse free n c { w with manager := m' } r := by
  refine ⟨h.request,hm.human,h.new,?_⟩
  rcases h.course with hbeg | ⟨hlookup,hcou⟩
  · exact .inl hbeg
  · exact .inr ⟨hlookup,hcou.stable rfl (fun _ _ _ => rfl) (.refl _) (fun _ huse => huse) hm.live hm.free⟩

theorem storeProof_onCourse (h : OnCourse free n c w r) (hw : Books w) (hste : w.storeProof a=some w') :
    OnCourse free n c w' r := by
  unfold Compatibility.storeProof at hste
  split at hste
  swap
  · cases hste
  next acquisition ha =>
    split at hste
    swap
    · cases hste
    next hsta =>
      have hope : acquisition.stage≠.finished := by
        rw [hsta]
        exact fun heq => by cases heq
      have hext:=extends_stage w.acquisitions a .stored
      have hnew:=Nat.le_trans h.new hext.length
      dsimp only at hste
      split at hste
      next proof hres =>
        cases hste
        refine ⟨h.request,h.human,hnew,?_⟩
        rcases h.course with ⟨hbeg,huse⟩ | ⟨hlookup,hcou⟩
        · exact .inl ⟨hbeg,fun hfre => (huse hfre).mono hext fun _ huse => huse⟩
        · refine .inr ⟨hlookup,promise_course hcou hw ha hope (fun _ hwai => hwai) ?_⟩
          intro state kept hkep
          obtain rfl : proof=kept := Option.some.inj hkep
          exact .inr hres
      next error hres =>
        cases hste
        refine ⟨h.request,h.human,hnew,?_⟩
        rcases h.course with ⟨hbeg,huse⟩ | ⟨hlookup,hcou⟩
        · exact .inl ⟨hbeg,fun hfre => (huse hfre).mono hext fun _ huse => huse⟩
        · have hsto : Course free n (Compatibility.modifyState acquisition.state id { w with
              acquisitions := w.acquisitions.modify a fun acquisition => { acquisition with stage := .stored } }) r r.phase :=
            promise_course hcou hw ha hope (fun _ hwai => hwai) fun _ _ hkep => .inl hkep
          unfold Compatibility.modifyState at hsto
          rw [modify_id] at hsto
          exact .inr ⟨hlookup,hsto⟩

theorem finishAcquiring_onCourse (h : OnCourse free n c w r) (hw : Books w) (hste : w.finishAcquiring a=some w') :
    OnCourse free n c w' r := by
  unfold Compatibility.finishAcquiring at hste
  split at hste
  swap
  · cases hste
  next acquisition ha =>
    split at hste
    swap
    · cases hste
    next hsta =>
      have hope : acquisition.stage≠.finished := by
        rw [hsta]
        exact fun heq => by cases heq
      have hext:=extends_stage w.acquisitions a .finished
      cases hste
      refine ⟨h.request,h.human,Nat.le_trans h.new hext.length,?_⟩
      rcases h.course with ⟨hbeg,huse⟩ | ⟨hlookup,hcou⟩
      · exact .inl ⟨hbeg,fun hfre => (huse hfre).mono hext fun _ huse => huse⟩
      · exact .inr ⟨hlookup,promise_course hcou hw ha hope (fun _ _ => rfl) fun _ _ hkep => .inl hkep⟩

theorem acquireLease_cases (hhum : w.manager.human=false) (actor : CompatibilityActor) (draw : Draw) :
    ∃ m' result, w.acquireLease actor draw=({ w with manager := m' },result) ∧ m'.human=false ∧
      (∀ proof, result=.ok proof → Live m' proof) ∧
        ∀ error, result=.error error → error.code ≠ "stale_lease" ∧ ¬(Free w.manager ∧ draw.refusal=none) := by
  unfold Compatibility.acquireLease
  split
  next error href =>
    refine ⟨w.manager,_,rfl,hhum,fun _ heq => (by cases heq),fun error' heq => ?_⟩
    cases heq
    refine ⟨draw.plain error (by rw [href]; rfl),fun hfre => ?_⟩
    rw [href] at hfre
    cases hfre.2
  next =>
    obtain ⟨m',result,hacq,hhum',hliv,hred⟩ := acquire_cases hhum actor draw.id
    rw [hacq]
    cases result with
    | error error =>
      refine ⟨m',_,rfl,hhum',fun _ heq => (by cases heq),fun error' heq => ?_⟩
      cases heq
      exact ⟨(hred error rfl).1,fun hfre => (hred error rfl).2 hfre.1⟩
    | ok lease =>
      refine ⟨m',_,rfl,hhum',fun proof heq => ?_,fun _ heq => (by cases heq)⟩
      cases heq
      exact hliv lease rfl

theorem ensureLease_onCourse {actor : CompatibilityActor} (hr : w.requests[c]? = some r)
    (hlookup : w.leases.lookup r.key=some r.state) (hfou : w.states[r.state]? = some state) (hpro : state.proof=none)
    (hidl : state.acquiring=none) (hhum : w.manager.human=false) (hnew : n≤w.acquisitions.length)
    (hfre : free → Free w.manager ∧ draw.refusal=none) :
    OnCourse free n c (w.ensureLease c attempt r.key actor draw)
      { r with phase := .acquiring attempt w.acquisitions.length } := by
  have hcur : w.currentLeaseState r.key=some (r.state,w) := by
    unfold Compatibility.currentLeaseState
    rw [hlookup]
  have htou : (w.states.modify r.state fun state => { state with touchedAt := w.manager.now })[r.state]? =
      some { state with touchedAt := w.manager.now } := getElem?_modify_self hfou
  unfold Compatibility.ensureLease
  rw [hcur]
  dsimp only
  unfold Compatibility.modifyState
  rw [htou]
  dsimp only
  rw [hpro,hidl]
  dsimp only
  have hhum' : ({ w with states := w.states.modify r.state fun state => { state with touchedAt := w.manager.now } } :
      Compatibility).manager.human=false := hhum
  obtain ⟨m',result,hacq,hhum'',hliv,href⟩ := acquireLease_cases hhum' actor draw
  rw [hacq]
  refine ⟨getElem?_modify_self hr,hhum'',?_,.inr ⟨.inr hlookup,?_⟩⟩
  · show n≤(w.acquisitions++[_]).length
    rw [length_append]
    omega
  · refine .acquiring (getElem?_concat_length ..) hnew rfl rfl (getElem?_modify_self htou) rfl ?_ hliv ?_
    · intro proof hkep
      have hsom : state.proof=some proof := hkep
      rw [hpro] at hsom
      cases hsom
    · intro error herr
      exact ⟨(href error herr).1,fun h => (href error herr).2 (hfre h)⟩

/- What a request forgets leaves nothing in its state. -/
theorem forgotten {proof : LeaseProof} (h : Remembers w i proof) :
    ∃ state, (if w.remembers i proof then w.forget i else w).states[i]? = some state ∧ state.proof=none ∧
      state.acquiring=none := by
  obtain ⟨state,hfou,hidl,hkep⟩ := h
  split
  next => exact ⟨{ state with proof := none },getElem?_modify_self hfou,rfl,hidl⟩
  next hoth =>
    refine ⟨state,hfou,?_,hidl⟩
    cases hpro : state.proof with
    | none => rfl
    | some kept =>
      refine absurd ?_ hoth
      obtain rfl := hkep kept hpro
      simp only [Compatibility.remembers,hfou,any_some,hpro]
      exact (sameProof_iff kept kept).2 rfl

end OnCourse

section Own
variable {free : Prop} {n c : ℕ} {w w' : Compatibility} {r : Request}

theorem Request.Fits.begun_phase {browserCapable : Bool} (h : r.Fits browserCapable acquisitions) (hbeg : r.Begun) :
    r.phase=.plain ∨ (∃ attempt proof rest, r.phase=.working attempt proof rest) ∨ ∃ outcome, r.phase=.ended outcome := by
  have hnon : ∀ {attempt : ℕ}, true ∉ List.replicate attempt false := fun hmem => by
    cases (mem_replicate.1 hmem).2
  have hnev : ∀ {attempt : ℕ}, true ∉ false::List.replicate attempt false := fun hmem =>
    hnon ((mem_cons.1 hmem).resolve_left fun heq => by cases heq)
  cases hcal : r.call with
  | none =>
    obtain ⟨hdis,hing⟩ := h.action hcal
    have hinv : 0<r.invoked := by
      refine hbeg.resolve_right fun hmem => ?_
      rw [hdis] at hmem
      cases hmem
    cases hpha : r.phase with
    | plain => exact .inl rfl
    | working attempt proof rest => exact .inr (.inl ⟨attempt,proof,rest,rfl⟩)
    | ended outcome => exact .inr (.inr ⟨outcome,rfl⟩)
    | acquiring =>
      rw [hpha] at hing
      exact absurd hing (Nat.ne_of_gt hinv)
    | holding =>
      rw [hpha] at hing
      exact absurd hing (Nat.ne_of_gt hinv)
    | queued =>
      rw [hpha] at hing
      exact hing.elim
    | rejected =>
      rw [hpha] at hing
      exact hing.elim
    | releasing =>
      rw [hpha] at hing
      exact hing.elim
  | some call =>
    obtain ⟨-,hinv,hdig⟩ := h.tool call hcal
    have hmem : true ∈ r.dispatches := hbeg.resolve_left (by omega)
    cases hpha : r.phase with
    | plain => exact .inl rfl
    | working attempt proof rest => exact .inr (.inl ⟨attempt,proof,rest,rfl⟩)
    | ended outcome => exact .inr (.inr ⟨outcome,rfl⟩)
    | acquiring =>
      rw [hpha] at hdig
      exact absurd (hdig.2 ▸ hmem) hnon
    | holding =>
      rw [hpha] at hdig
      exact absurd (hdig.2 ▸ hmem) hnon
    | queued =>
      rw [hpha] at hdig
      exact absurd (hdig.2.2 ▸ hmem) hnev
    | rejected =>
      rw [hpha] at hdig
      exact absurd (hdig.2 ▸ hmem) hnev
    | releasing =>
      rw [hpha] at hdig
      exact absurd (hdig ▸ hmem) (@hnev 0)

/- Where a request is that is not over and has not begun. -/
theorem OnCourse.course_of (h : OnCourse free n c w r) (hfit : r.Fits w.browserCapable w.acquisitions)
    (hwai : ∀ attempt proof rest, r.phase≠.working attempt proof rest) (hgoe : ∀ outcome, r.phase≠.ended outcome)
    (hpln : r.phase≠.plain) : w.leases.lookup r.key=some r.state ∧ Course free n w r r.phase := by
  rcases h.course with ⟨hbeg,-⟩ | ⟨hpla,hcou⟩
  · exfalso
    rcases hfit.begun_phase hbeg with hpha | ⟨attempt,proof,rest,hpha⟩ | ⟨outcome,hpha⟩
    · exact hpln hpha
    · exact hwai attempt proof rest hpha
    · exact hgoe outcome hpha
  · exact ⟨hpla.resolve_left fun ⟨outcome,hpha⟩ => hgoe outcome hpha,hcou⟩

theorem joined_onCourse (h : OnCourse free n c w r) (hw : Sound w) (hste : w.joined c=some w') :
    ∃ r', OnCourse free n c w' r' ∧ r'.key=r.key := by
  unfold Compatibility.joined at hste
  split at hste
  swap
  · cases hste
  next attempt a hpha =>
    rw [h.request,map_some,Option.some.injEq] at hpha
    obtain ⟨hlookup,hcou⟩ := h.course_of (hw.request h.request) (by simp [hpha]) (by simp [hpha]) (by simp [hpha])
    rw [hpha] at hcou
    cases hcou with
    | acquiring promise new own place found waits kept granted refused =>
      rw [promise] at hste
      split at hste
      swap
      · cases hste
      next acquisition heq =>
        obtain rfl := Option.some.inj heq
        split at hste
        next proof hsta hres =>
          cases hste
          refine ⟨_,⟨getElem?_modify_self h.request,h.human,h.new,.inr ⟨.inr hlookup,?_⟩⟩,rfl⟩
          rw [if_pos hsta] at waits
          refine .holding ⟨_,found,waits,fun other hoth => ?_⟩ (granted proof hres)
            ⟨a,_,new,promise,own,hres⟩
          have hok:=kept other hoth
          rw [hres] at hok
          exact (Except.ok.inj hok).symm
        next error hsta hres =>
          cases hste
          refine ⟨_,⟨getElem?_modify_self h.request,h.human,h.new,.inr ⟨.inr hlookup,.ended ?_ (refused error hres).2⟩⟩,rfl⟩
          intro error' heq
          cases heq
          exact (refused error hres).1
        · cases hste

theorem finish_onCourse (h : OnCourse free n c w r) {outcome : Outcome}
    (hste : w.finish c outcome=some w') : ∃ r', OnCourse free n c w' r' ∧ r'.key=r.key := by
  -- nothing but work that has begun can end so
  have hend : ∀ {outcome}, (r.phase=.plain ∨ ∃ attempt proof rest, r.phase=.working attempt proof rest) →
      w'=w.setPhase c (.ended outcome) → ∃ r', OnCourse free n c w' r' ∧ r'.key=r.key := by
    intro outcome hpha heq
    subst heq
    rcases h.course with hbeg | ⟨-,hcou⟩
    · exact ⟨_,⟨getElem?_modify_self h.request,h.human,h.new,.inl hbeg⟩,rfl⟩
    · exfalso
      rcases hpha with hpha | ⟨attempt,proof,rest,hpha⟩
      · rw [hpha] at hcou
        cases hcou
      · rw [hpha] at hcou
        cases hcou
  unfold Compatibility.finish at hste
  rw [h.request] at hste
  split at hste
  swap
  · cases hste
  next r' heq =>
    obtain rfl := Option.some.inj heq
    split at hste
    next hpha => exact hend (.inl hpha) (Option.some.inj hste).symm
    next hpha =>
      split at hste
      · cases hste
      · exact hend (.inr ⟨_,_,_,hpha⟩) (Option.some.inj hste).symm
    next hpha _ => exact hend (.inr ⟨_,_,_,hpha⟩) (Option.some.inj hste).symm
    · cases hste

/- A lost lease is said to be refused before anything was done. -/
theorem beforeDispatch_code (error : QubiclError) : (beforeDispatch error).code=error.code := by
  unfold beforeDispatch
  split <;> rfl

theorem beforeDispatch_refuses {error : QubiclError} (h : error.code = "stale_lease") :
    refusesProof (beforeDispatch error)=true := by
  unfold beforeDispatch
  rw [if_pos (.inl h)]
  simp [refusesProof,h,lookup_mapSet]

theorem turn_onCourse (h : OnCourse free n c w r) (hw : Sound w) (hste : w.turn c=some w') :
    ∃ r', OnCourse free n c w' r' ∧ r'.key=r.key := by
  unfold Compatibility.turn at hste
  split at hste
  swap
  · cases hste
  next attempt proof stage rest hpha =>
    rw [h.request,map_some,Option.some.injEq] at hpha
    obtain ⟨hlookup,hcou⟩ := h.course_of (hw.request h.request) (by simp [hpha]) (by simp [hpha]) (by simp [hpha])
    rw [hpha] at hcou
    have hbeg : Request.Begun { r with phase := .working attempt proof rest, dispatches := true::r.dispatches.drop 1 } :=
      .inr mem_cons_self
    have hhum : (if stage=.desktop then verifyInteractive proof w.manager else verify proof false w.manager).1.human =
        false := by
      split
      · rw [verifyInteractive_state,verify_human]
        exact h.human
      · rw [verify_human]
        exact h.human
    have hliv : Live w.manager proof → ∃ m',
        (if stage=.desktop then verifyInteractive proof w.manager else verify proof false w.manager)=(m',.ok proof) := by
      intro hliv
      split
      · obtain ⟨m',hok,-⟩ := hliv.verifyInteractive
        exact ⟨m',hok⟩
      · obtain ⟨m',hok,-⟩ := hliv.verify false
        exact ⟨m',hok⟩
    split at hste
    next manager error hans =>
      cases hste
      rw [hans] at hhum hliv
      cases hcou with
      | queued live fresh used =>
        obtain ⟨m',hok⟩ := hliv live
        cases hok
      | unsure kept taken =>
        refine ⟨_,⟨getElem?_modify_self h.request,hhum,h.new,.inr ⟨.inr hlookup,?_⟩⟩,rfl⟩
        refine .rejected kept ?_ fun hfre => absurd hfre taken
        intro hcod
        exact ⟨rfl,beforeDispatch_refuses ((beforeDispatch_code error).symm.trans hcod)⟩
    next manager owner hans =>
      cases hste
      rw [hans] at hhum
      refine ⟨_,⟨getElem?_modify_self h.request,hhum,h.new,.inl ⟨hbeg,?_⟩⟩,rfl⟩
      intro hfre
      cases hcou with
      | queued live fresh used => exact ⟨proof,used,fresh⟩
      | unsure kept taken => exact absurd hfre taken

end Own

section Refused
variable {free : Prop} {n c : ℕ} {w w' : Compatibility} {r : Request}

section
variable (h : OnCourse free n c w r) (hlookup : w.leases.lookup r.key=some r.state)
include h hlookup

theorem retry_onCourse {proof : LeaseProof} (hkep : Remembers w r.state proof) {manager : LeaseManager}
    (hhum : manager.human=false) (hfre : free → Free manager ∧ draw.refusal=none) :
    OnCourse free n c (Compatibility.ensureLease c 1 r.key r.actor draw
      (if Compatibility.remembers r.state proof { w with manager := manager } then
        Compatibility.forget r.state { w with manager := manager } else { w with manager := manager }))
      { r with phase := .acquiring 1 w.acquisitions.length } := by
  have hkep' : Remembers { w with manager := manager } r.state proof := hkep
  obtain ⟨state,hfou,hpro,hidl⟩ := forgotten hkep'
  split
  next hsam =>
    rw [if_pos hsam] at hfou
    exact ensureLease_onCourse (w := Compatibility.forget r.state { w with manager := manager }) h.request hlookup hfou
      hpro hidl hhum h.new hfre
  next hoth =>
    rw [if_neg hoth] at hfou
    exact ensureLease_onCourse (w := { w with manager := manager }) h.request hlookup hfou hpro hidl hhum h.new hfre

theorem invoke_onCourse {proof : LeaseProof} (hcou : Course free n w r (.holding attempt proof))
    (huse : (r.key,proof) ∈ w.uses) (hpla : free → draw.refusal=none) :
    ∃ r', OnCourse free n c (w.invoke c attempt proof r draw) r' ∧ r'.key=r.key := by
  have hhum:=(verify_human proof true w.manager).trans h.human
  unfold Compatibility.invoke
  split
  next manager owner hans =>
    rw [hans] at hhum
    refine ⟨_,⟨getElem?_modify_self h.request,hhum,h.new,.inl ⟨.inl (Nat.succ_pos _),fun hfre => ?_⟩⟩,rfl⟩
    cases hcou with
    | remembered kept vacant =>
      rw [(vacant hfre).verify] at hans
      cases hans
    | holding kept live fresh => exact ⟨proof,huse,fresh⟩
  next manager error hans =>
    rw [hans] at hhum
    cases hcou with
    | holding kept live fresh =>
      obtain ⟨m',hok,-⟩ := live.verify true
      rw [hok] at hans
      cases hans
    | remembered kept vacant =>
      have hfre : free → manager=w.manager ∧ error=staleLease := by
        intro hfre
        rw [(vacant hfre).verify] at hans
        cases hans
        exact ⟨rfl,rfl⟩
      dsimp only
      split
      next hend =>
        have hcod : error.code ≠ "stale_lease" := hend.resolve_right (by omega)
        refine ⟨_,⟨getElem?_modify_self h.request,hhum,h.new,.inr ⟨.inr hlookup,.ended ?_ fun hfre' => ?_⟩⟩,rfl⟩
        · intro error' heq
          cases heq
          exact hcod
        · rw [(hfre hfre').2] at hcod
          exact hcod rfl
      next =>
        refine ⟨_,retry_onCourse h hlookup kept hhum fun hfre' => ⟨?_,hpla hfre'⟩,rfl⟩
        rw [(hfre hfre').1]
        exact vacant hfre'

theorem dispatch_onCourse {proof : LeaseProof} {call : ToolCall} (hcou : Course free n w r (.holding attempt proof))
    (huse : (r.key,proof) ∈ w.uses) (hsin : call.worksBeforeTurn w.browserCapable=false)
    (hoth : ∀ error ∈ refusal, error.code ≠ "stale_lease") (hpla : free → refusal=none) :
    ∃ r', OnCourse free n c (w.dispatch c attempt proof call refusal) r' ∧ r'.key=r.key := by
  have hkep : Remembers w r.state proof := by
    cases hcou with
    | remembered kept vacant => exact kept
    | holding kept live fresh => exact kept
  let dispatched : Request := { r with dispatches := false::r.dispatches }
  have hdis : (w.requests.modify c fun r => { r with dispatches := false::r.dispatches })[c]? = some dispatched :=
    getElem?_modify_self h.request
  -- a proof that is refused was remembered from earlier
  have hred : ∀ {manager : LeaseManager} {error : QubiclError}, manager.human=false → ¬Live w.manager proof →
      (free → manager=w.manager ∧ error=staleLease) →
      ∃ r', OnCourse free n c (Compatibility.setPhase c (.rejected attempt proof (beforeDispatch error))
        { w.modifyRequest c (fun r => { r with dispatches := false::r.dispatches }) with manager := manager }) r' ∧
          r'.key=r.key := by
    intro manager error hhum hlos hfre
    refine ⟨_,⟨getElem?_modify_self hdis,hhum,h.new,.inr ⟨.inr hlookup,?_⟩⟩,rfl⟩
    cases hcou with
    | holding kept live fresh => exact absurd live hlos
    | remembered kept vacant =>
      refine .rejected kept ?_ ?_
      · intro hcod
        exact ⟨rfl,beforeDispatch_refuses ((beforeDispatch_code error).symm.trans hcod)⟩
      · intro hfre'
        obtain ⟨hman,herr⟩ := hfre hfre'
        refine ⟨(beforeDispatch_code error).trans ?_,?_⟩
        · rw [herr]
          rfl
        · show Free manager
          rw [hman]
          exact vacant hfre'
  -- a proof that is verified is the fresh one if the lease was free
  have hent : ∀ {manager : LeaseManager}, manager.human=false → (Live w.manager proof → Live manager proof) →
      (free → Live w.manager proof ∧ Fresh n w.acquisitions r.key proof) →
      ∃ r', OnCourse free n c (Compatibility.enter c attempt proof (call.stages w.browserCapable)
        { w.modifyRequest c (fun r => { r with dispatches := false::r.dispatches }) with manager := manager }) r' ∧
          r'.key=r.key := by
    intro manager hhum hliv hfre
    have hque : ∀ stage, Course free n (Compatibility.setPhase c (.queued attempt proof stage [])
        { w.modifyRequest c (fun r => { r with dispatches := false::r.dispatches }) with manager := manager })
        { dispatched with phase := .queued attempt proof stage [] } (.queued attempt proof stage []) := by
      intro stage
      cases hcou with
      | holding kept live fresh => exact .queued (hliv live) fresh huse
      | remembered kept vacant =>
        by_cases hfre' : free
        · exact .queued (hliv (hfre hfre').1) (hfre hfre').2 huse
        · exact .unsure kept hfre'
    obtain ⟨stage,hsta⟩ := stages_single hsin
    rw [hsta]
    cases stage with
    | direct =>
      exact ⟨_,⟨getElem?_modify_self hdis,hhum,h.new,
        .inl ⟨.inr mem_cons_self,fun hfre' => ⟨proof,huse,(hfre hfre').2⟩⟩⟩,rfl⟩
    | browser =>
      exact ⟨_,⟨getElem?_modify_self hdis,hhum,h.new,.inr ⟨.inr hlookup,hque .browser⟩⟩,rfl⟩
    | desktop =>
      exact ⟨_,⟨getElem?_modify_self hdis,hhum,h.new,.inr ⟨.inr hlookup,hque .desktop⟩⟩,rfl⟩
  have hhum:=(verify_human proof true w.manager).trans h.human
  have hver : ∀ {manager owner}, verify proof true w.manager=(manager,.ok owner) →
      (Live w.manager proof → Live manager proof) ∧ (free → Live w.manager proof ∧ Fresh n w.acquisitions r.key proof) := by
    intro manager owner hans
    refine ⟨fun hliv => ?_,fun hfre => ?_⟩
    · obtain ⟨m',hok,hliv'⟩ := hliv.verify true
      rw [hok] at hans
      cases hans
      exact hliv'
    · cases hcou with
      | remembered kept vacant =>
        rw [(vacant hfre).verify] at hans
        cases hans
      | holding kept live fresh => exact ⟨live,fresh⟩
  unfold Compatibility.dispatch
  dsimp only
  split
  next error =>
    have hcod:=hoth error rfl
    refine ⟨_,⟨getElem?_modify_self hdis,h.human,h.new,.inr ⟨.inr hlookup,?_⟩⟩,rfl⟩
    refine .rejected hkep (fun heq => absurd heq hcod) fun hfre => ?_
    cases hpla hfre
  next =>
    split
    next manager error hans =>
      have hans' : verify proof true w.manager=(manager,.error error) := hans
      rw [hans'] at hhum
      have hlos : ¬Live w.manager proof := by
        intro hliv
        obtain ⟨m',hok,-⟩ := hliv.verify true
        rw [hans'] at hok
        cases hok
      refine hred hhum hlos fun hfre => ?_
      cases hcou with
      | holding kept live fresh => exact absurd live hlos
      | remembered kept vacant =>
        rw [(vacant hfre).verify] at hans'
        cases hans'
        exact ⟨rfl,rfl⟩
    next manager owner hans =>
      have hans' : verify proof true w.manager=(manager,.ok owner) := hans
      rw [hans'] at hhum
      obtain ⟨hliv,hfre⟩ := hver hans'
      have hown : Live w.manager proof → owner=proof := by
        intro hliv
        obtain ⟨m',hok,-⟩ := hliv.verify true
        rw [hans'] at hok
        cases hok
        rfl
      split
      · have hint : (verifyInteractive owner manager).1.human=false := by
          rw [verifyInteractive_state,verify_human]
          exact hhum
        split
        next manager' error href =>
          rw [href] at hint
          have hlos : ¬Live w.manager proof := by
            intro hpro
            obtain ⟨m',hok,-⟩ := (hliv hpro).verifyInteractive
            rw [hown hpro,hok] at href
            cases href
          exact hred hint hlos fun hfre' => absurd (hfre hfre').1 hlos
        next manager' _ hok' =>
          rw [hok'] at hint
          refine hent hint (fun hpro => ?_) hfre
          obtain ⟨m',hok,hliv'⟩ := (hliv hpro).verifyInteractive
          rw [hown hpro,hok] at hok'
          cases hok'
          exact hliv'
      · exact hent hhum hliv hfre

end

end Refused

section Again
variable {free : Prop} {n c : ℕ} {w w' : Compatibility} {r : Request}

theorem go_onCourse (h : OnCourse free n c w r) (hw : Sound w) (hoth : ∀ error ∈ refusal, error.code ≠ "stale_lease")
    (hpla : free → refusal=none ∧ draw.refusal=none) (hste : w.go c refusal draw=some w') :
    ∃ r', OnCourse free n c w' r' ∧ r'.key=r.key := by
  unfold Compatibility.go at hste
  rw [h.request] at hste
  dsimp only at hste
  split at hste
  swap
  · cases hste
  next attempt proof hpha =>
    obtain ⟨hlookup,hcou⟩ := h.course_of (hw.request h.request) (by simp [hpha]) (by simp [hpha]) (by simp [hpha])
    have husi : ∀ use ∈ w.uses, use ∈ (r.key,proof)::w.uses := fun use huse => mem_cons_of_mem _ huse
    have husd : OnCourse free n c { w with uses := (r.key,proof)::w.uses } r :=
      ⟨h.request,h.human,h.new,.inr ⟨.inr hlookup,
        hcou.stable rfl (fun _ _ _ => rfl) (.refl _) husi (fun _ hliv => hliv) fun hfre => hfre⟩⟩
    have hhol : Course free n { w with uses := (r.key,proof)::w.uses } r (.holding attempt proof) := by
      rw [← hpha]
      exact hcou.stable rfl (fun _ _ _ => rfl) (.refl _) husi (fun _ hliv => hliv) fun hfre => hfre
    split at hste
    next hcal =>
      cases hste
      exact invoke_onCourse husd hlookup hhol mem_cons_self fun hfre => (hpla hfre).2
    next call hcal =>
      split at hste
      · cases hste
      · cases hste
        have hsin:=((hw.request h.request).tool call hcal).1
        exact dispatch_onCourse husd hlookup hhol mem_cons_self hsin hoth fun hfre => (hpla hfre).1

theorem caught_onCourse (h : OnCourse free n c w r) (hw : Sound w) (hpla : free → draw.refusal=none)
    (hste : w.caught c draw=some w') : ∃ r', OnCourse free n c w' r' ∧ r'.key=r.key := by
  unfold Compatibility.caught at hste
  rw [h.request] at hste
  dsimp only at hste
  split at hste
  swap
  · cases hste
  next attempt proof error hpha =>
    obtain ⟨hlookup,hcou⟩ := h.course_of (hw.request h.request) (by simp [hpha]) (by simp [hpha]) (by simp [hpha])
    rw [hpha] at hcou
    cases hcou with
    | rejected kept stale vacant =>
      have haga : free → Free w.manager ∧ draw.refusal=none := fun hfre => ⟨(vacant hfre).2,hpla hfre⟩
      have hret:=retry_onCourse h hlookup kept h.human haga
      split at hste
      next hend =>
        cases hste
        have hcod : error.code ≠ "stale_lease" := by
          intro hcod
          obtain ⟨hfir,href⟩ := stale hcod
          rcases hend with hkee | hsecond
          · rw [href] at hkee
            cases hkee
          · omega
        refine ⟨_,⟨getElem?_modify_self h.request,h.human,h.new,.inr ⟨.inr hlookup,.ended ?_ ?_⟩⟩,rfl⟩
        · intro error' heq
          cases heq
          exact hcod
        · exact fun hfre => hcod (vacant hfre).1
      next =>
        split at hste
        next hsam =>
          rw [if_pos hsam] at hret
          split at hste
          next hbac =>
            cases hste
            obtain ⟨state,hfou,hpro,hidl⟩ := forgotten kept
            rw [if_pos hsam] at hfou
            refine ⟨_,⟨getElem?_modify_self h.request,(release_human proof w.manager).trans h.human,h.new,
              .inr ⟨.inr hlookup,.releasing hfou hpro hidl fun hfre => ?_⟩⟩,rfl⟩
            have hcod:=(vacant hfre).1
            rw [hbac] at hcod
            revert hcod
            decide
          next =>
            cases hste
            exact ⟨_,hret,rfl⟩
        next hdif =>
          rw [if_neg hdif] at hret
          cases hste
          exact ⟨_,hret,rfl⟩

theorem released_onCourse (h : OnCourse free n c w r) (hw : Sound w) (hste : w.released c draw=some w') :
    ∃ r', OnCourse free n c w' r' ∧ r'.key=r.key := by
  have hret : ∀ {result}, r.phase=.releasing result →
      OnCourse free n c (w.ensureLease c 1 r.key r.actor draw) { r with phase := .acquiring 1 w.acquisitions.length } ∧
        ¬free ∧ w.leases.lookup r.key=some r.state := by
    intro result hpha
    obtain ⟨hlookup,hcou⟩ := h.course_of (hw.request h.request) (by simp [hpha]) (by simp [hpha]) (by simp [hpha])
    rw [hpha] at hcou
    cases hcou with
    | releasing found forgotten idle taken =>
      exact ⟨ensureLease_onCourse h.request hlookup found forgotten idle h.human h.new fun hfre => absurd hfre taken,
        taken,hlookup⟩
  unfold Compatibility.released at hste
  rw [h.request] at hste
  dsimp only at hste
  split at hste
  next error hpha =>
    obtain ⟨haga,htak,hlookup⟩ := hret hpha
    split at hste
    · cases hste
      exact ⟨_,haga,rfl⟩
    next hcod =>
      cases hste
      refine ⟨_,⟨getElem?_modify_self h.request,h.human,h.new,.inr ⟨.inr hlookup,.ended ?_ htak⟩⟩,rfl⟩
      intro error' heq
      cases heq
      exact hcod
  next p hpha =>
    obtain ⟨haga,htak,hlookup⟩ := hret hpha
    split at hste
    · cases hste
      exact ⟨_,haga,rfl⟩
    · cases hste
      refine ⟨_,⟨getElem?_modify_self h.request,h.human,h.new,.inr ⟨.inr hlookup,.ended ?_ htak⟩⟩,rfl⟩
      intro error heq
      cases heq
    · cases hste
  · cases hste

theorem step_onCourse (h : OnCourse free n c w r) (hw : Sound w) (halo : Alone c w action)
    (hpla : free → Unrefused action) (hste : compatibilitySystem.step w action=some w') :
    ∃ r', OnCourse free n c w' r' ∧ r'.key=r.key := by
  change w.step action=some w' at hste
  cases action with
  | lease action =>
    obtain ⟨m',hm,rfl⟩ := map_eq_some_iff.1 hste
    exact ⟨r,lease_onCourse h (halo m' hm),rfl⟩
  | start key call actor draw => exact halo.elim
  | storeProof a => exact ⟨r,storeProof_onCourse h hw.books hste,rfl⟩
  | finishAcquiring a => exact ⟨r,finishAcquiring_onCourse h hw.books hste,rfl⟩
  | joined c' =>
    obtain rfl : c'=c := halo
    exact joined_onCourse h hw hste
  | go c' refusal draw =>
    obtain ⟨rfl,hoth⟩ := halo
    exact go_onCourse h hw hoth hpla hste
  | turn c' =>
    obtain rfl : c'=c := halo
    exact turn_onCourse h hw hste
  | advance c' =>
    have hnon : w.advance c'=some w' := hste
    rw [advance_none hw] at hnon
    cases hnon
  | finish c' outcome =>
    obtain rfl : c'=c := halo
    exact finish_onCourse h hste
  | caught c' draw =>
    obtain rfl : c'=c := halo
    exact caught_onCourse h hw hpla hste
  | released c' draw =>
    obtain rfl : c'=c := halo
    exact released_onCourse h hw hste
  | shutdown => exact halo.elim

/- Nobody starts a request of a tool that works before its turn, for nobody starts one. -/
theorem Alone.checksFirst (h : Alone c w action) : ChecksFirst w action := by
  cases action with
  | start => exact h.elim
  | _ => trivial

end Again

end Qubicl.Control.OpenTerminal
