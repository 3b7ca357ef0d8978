import Qubicl.Control.Lease.System
import Qubicl.Foundation.History

/-!
# The gateway epoch (packages/control/src/executor.ts:995-1009)

Every authenticated request first tells the executor which gateway it comes from.
`observeGatewayEpoch` resets the leases when that is another gateway than before, and
a request goes on once the reset it waits for is done. The resets are chained by
promises; `transitions` keeps them, as `LeaseManager.jobs` keeps the promises of the
lease manager, and `calls` keeps the requests that wait.
-/

namespace Qubicl.Control
open Foundation List Option

/- Of `previous.then(() => this.leases.resetEpoch())`: in `resetting` the promise `p`
of the lease manager decides how it ends. -/
inductive GatewayPhase
  | waiting
  | resetting (p : ℕ)
  | fulfilled
  | rejected
  deriving DecidableEq, Repr

structure GatewayTransition where
  previous : Option ℕ
  phase : GatewayPhase
  deriving DecidableEq, Repr

structure GatewayCall where
  call : ℕ
  transition : ℕ
  deriving DecidableEq, Repr

/- What happened, newest first; no method reads it. The first observation is no
change: there is no older gateway. -/
inductive GatewayEvent
  | called (call : ℕ)
  | changed (transition : ℕ)
  | completed (transition : ℕ)
  | failed (transition : ℕ)
  | resolved (call : ℕ)
  | threw (call : ℕ)
  deriving DecidableEq, Repr

structure ToolExecutor where
  leases : LeaseManager
  gatewayEpoch : Option String
  gatewayTransition : Option ℕ
  transitions : ℕ → Option GatewayTransition
  nextTransition : ℕ
  calls : List GatewayCall
  nextCall : ℕ
  history : List GatewayEvent

namespace ToolExecutor

def create (leases : LeaseManager) : ToolExecutor where
  leases := leases
  gatewayEpoch := none
  gatewayTransition := none
  transitions := fun _ => none
  nextTransition := 0
  calls := []
  nextCall := 0
  history := []

def setPhase (e : ToolExecutor) (t : ℕ) (transition : GatewayTransition) (phase : GatewayPhase) :
    ToolExecutor :=
  { e with transitions := Function.update e.transitions t (some { transition with phase := phase }) }

def settled (e : ToolExecutor) (event : GatewayEvent) : ToolExecutor :=
  { e with history := event::e.history }

def changeEpoch (epoch : String) (e : ToolExecutor) : ToolExecutor :=
  let hadPriorGateway:=e.gatewayEpoch.isSome
  let e:={ e with gatewayEpoch := some epoch }
  if hadPriorGateway then
    { e with
      transitions := Function.update e.transitions e.nextTransition
        (some ⟨e.gatewayTransition,.waiting⟩)
      gatewayTransition := some e.nextTransition
      nextTransition := e.nextTransition+1
      history := .changed e.nextTransition::e.history }
  else e

/-- `observeGatewayEpoch` up to its `await`. -/
def observeGatewayEpoch (epoch : String) (e : ToolExecutor) : ToolExecutor :=
  let call:=e.nextCall
  let e:={ e with nextCall := call+1, history := .called call::e.history }
  let e:=if e.gatewayEpoch=some epoch then e else changeEpoch epoch e
  match e.gatewayTransition with
  | none => e.settled (.resolved call)
  | some t => { e with calls := e.calls++[⟨call,t⟩] }

/- The callback of `then`: it runs where the previous transition was fulfilled, and
where that was rejected the rejection is passed on. -/
def startTransition (t : ℕ) (epoch : Base64Url) (e : ToolExecutor) : Option ToolExecutor :=
  match e.transitions t with
  | some transition =>
    let reset:=e.leases.resetEpoch epoch
    let started:={ e with leases := reset.1 }.setPhase t transition (.resetting reset.2)
    if transition.phase=.waiting then
      match transition.previous with
      | none => some started
      | some q => match (e.transitions q).map GatewayTransition.phase with
        | some .fulfilled => some started
        | some .rejected => some (e.setPhase t transition .rejected)
        | _ => none
    else none
  | none => none

def settleTransition (t : ℕ) (e : ToolExecutor) : Option ToolExecutor :=
  match e.transitions t with
  | some transition => match transition.phase with
    | .resetting p => match (e.leases.jobs p).map RevocationJob.phase with
      | some (.fulfilled _) => some ((e.setPhase t transition .fulfilled).settled (.completed t))
      | some (.rejected _) => some ((e.setPhase t transition .rejected).settled (.failed t))
      | _ => none
    | _ => none
  | none => none

/- A call goes on after its `await`: only a call that does not throw clears the transition. -/
def resumeCall (call : GatewayCall) (e : ToolExecutor) : Option ToolExecutor :=
  if call ∈ e.calls then
    let resumed:={ e with calls := e.calls.erase call }
    match (e.transitions call.transition).map GatewayTransition.phase with
    | some .fulfilled => some ({ resumed with
        gatewayTransition := if e.gatewayTransition=some call.transition then none
          else e.gatewayTransition }.settled (.resolved call.call))
    | some .rejected => some (resumed.settled (.threw call.call))
    | _ => none
  else none

end ToolExecutor

inductive GatewayAction
  | observe (epoch : String)
  | start (transition : ℕ) (epoch : Base64Url)
  | settle (transition : ℕ)
  | resume (call : GatewayCall)
  | lease (action : LeaseAction)

open ToolExecutor

def gatewayStep (e : ToolExecutor) : GatewayAction → Option ToolExecutor
  | .observe epoch => some (e.observeGatewayEpoch epoch)
  | .start t epoch => e.startTransition t epoch
  | .settle t => e.settleTransition t
  | .resume call => e.resumeCall call
  | .lease action => (leaseSystem.step e.leases action).map fun leases => { e with leases }

def gatewaySystem : TransitionSystem ToolExecutor GatewayAction where
  initial e := ∃ leases, leaseSystem.initial leases ∧ e=create leases
  step := gatewayStep

def GatewayEvent.change : GatewayEvent → Option ℕ
  | .changed t => some t
  | _ => none

def lastChange (history : List GatewayEvent) : Option ℕ := history.findSome? GatewayEvent.change

/-- When a call resolves, the reset that the most recent change asked for is complete. -/
def Fenced (history : List GatewayEvent) : Prop :=
  ∀ after call before, history=after++.resolved call::before →
    ∀ t, lastChange before=some t → .completed t ∈ before

/-- A call that is made after a transition failed throws only where a transition fails again. -/
def Recovers (history : List GatewayEvent) : Prop :=
  ∀ after call between before, history=after++.threw call::(between++.called call::before) →
    (∃ t, .failed t ∈ before) → ∃ t, .failed t ∈ between

/- No transition's revocation fails, and no request brings another epoch while
requests wait for a reset. -/
def orderly (e : ToolExecutor) : GatewayAction → Bool
  | .observe epoch => e.gatewayEpoch.isNone || e.gatewayEpoch == some epoch || e.calls.isEmpty
  | .settle t => match e.transitions t with
    | some transition => match transition.phase with
      | .resetting p => match (e.leases.jobs p).map RevocationJob.phase with
        | some (.rejected _) => false
        | _ => true
      | _ => true
    | none => true
  | _ => true

variable {history : List GatewayEvent}

theorem Fenced.cons (h : Fenced history) {event : GatewayEvent}
    (hne : ∀ call, event≠.resolved call) : Fenced (event::history) := by
  intro after call before hs t ht
  rcases split_cons hs with ⟨_,heq,_⟩ | ⟨mid,_,hm⟩
  · exact absurd heq (hne call)
  · exact h mid call before hm t ht

theorem Fenced.resolve (h : Fenced history)
    (hdon : ∀ t, lastChange history=some t → .completed t ∈ history) (call : ℕ) :
    Fenced (.resolved call::history) := by
  intro after other before hs t ht
  rcases split_cons hs with ⟨_,_,hb⟩ | ⟨mid,_,hm⟩
  · rw [← hb] at ht ⊢
    exact hdon t ht
  · exact h mid other before hm t ht

theorem lastChange_cons {event : GatewayEvent} (h : event.change=none) (history : List GatewayEvent) :
    lastChange (event::history)=lastChange history := by
  simp [lastChange,h]

structure Gated (e : ToolExecutor) : Prop where
  bounded : ∀ t transition, e.transitions t=some transition → t<e.nextTransition
  current : ∀ t, e.gatewayTransition=some t → t+1=e.nextTransition
  waiting : ∀ call ∈ e.calls, call.transition+1=e.nextTransition
  latest : ∀ t, lastChange e.history=some t → t+1=e.nextTransition
  done : ∀ t transition, e.transitions t=some transition → transition.phase=.fulfilled →
    .completed t ∈ e.history
  free : e.gatewayTransition=none → ∀ t, t+1=e.nextTransition → .completed t ∈ e.history
  accepted : ∀ t transition, e.transitions t=some transition → transition.phase≠.rejected
  quiet : ∀ call, .threw call ∉ e.history
  fenced : Fenced e.history

theorem gated_create (leases : LeaseManager) : Gated (create leases) where
  bounded _ _ h := nomatch h
  current _ h := nomatch h
  waiting _ h := nomatch h
  latest _ h := nomatch h
  done _ _ h := nomatch h
  free _ t h := absurd h (Nat.succ_ne_zero t)
  accepted _ _ h := nomatch h
  quiet _ h := nomatch h
  fenced after call before h := by simp [create] at h

variable {e : ToolExecutor}

theorem Gated.setPhase (h : Gated e) {t : ℕ} {transition : GatewayTransition}
    (ht : e.transitions t=some transition) {phase : GatewayPhase} (hpha : phase≠.rejected)
    (hdon : phase=.fulfilled → .completed t ∈ e.history) : Gated (e.setPhase t transition phase) := by
  have hcas : ∀ u other, (e.setPhase t transition phase).transitions u=some other →
      (u=t ∧ other = { transition with phase := phase }) ∨ e.transitions u=some other := by
    intro u other hu
    by_cases he : u=t
    · subst he
      have hsel:=(Function.update_self ..).symm.trans hu
      exact .inl ⟨rfl,(Option.some.inj hsel).symm⟩
    · exact .inr ((Function.update_of_ne he ..).symm.trans hu)
  refine ⟨?_,h.current,h.waiting,h.latest,?_,h.free,?_,h.quiet,h.fenced⟩
  · intro u other hu
    rcases hcas u other hu with ⟨rfl,_⟩ | hu
    · exact h.bounded u transition ht
    · exact h.bounded u other hu
  · intro u other hu hf
    rcases hcas u other hu with ⟨rfl,rfl⟩ | hu
    · exact hdon hf
    · exact h.done u other hu hf
  · intro u other hu
    rcases hcas u other hu with ⟨_,rfl⟩ | hu
    · exact hpha
    · exact h.accepted u other hu

theorem Gated.event (h : Gated e) (event : GatewayEvent) (hcha : event.change=none)
    (hres : ∀ call, event≠.resolved call) (hthr : ∀ call, event≠.threw call) :
    Gated (e.settled event) := by
  refine ⟨h.bounded,h.current,h.waiting,?_,?_,?_,h.accepted,?_,h.fenced.cons hres⟩
  · intro t ht
    apply h.latest t
    rw [← lastChange_cons hcha]
    exact ht
  · intro t transition ht hf
    exact mem_cons_of_mem _ (h.done t transition ht hf)
  · intro hnon t ht
    exact mem_cons_of_mem _ (h.free hnon t ht)
  · intro call hmem
    rcases mem_cons.mp hmem with heq | hmem
    · exact hthr call heq.symm
    · exact h.quiet call hmem

theorem Gated.resolve (h : Gated e)
    (hdon : ∀ t, t+1=e.nextTransition → .completed t ∈ e.history) (call : ℕ) :
    Gated (e.settled (.resolved call)) := by
  have hcha : GatewayEvent.change (.resolved call)=none := rfl
  refine ⟨h.bounded,h.current,h.waiting,?_,?_,?_,h.accepted,?_,
    h.fenced.resolve (fun t ht => hdon t (h.latest t ht)) call⟩
  · intro t ht
    apply h.latest t
    rw [← lastChange_cons hcha]
    exact ht
  · intro t transition ht hf
    exact mem_cons_of_mem _ (h.done t transition ht hf)
  · intro _ t ht
    exact mem_cons_of_mem _ (hdon t ht)
  · intro other hmem
    rcases mem_cons.mp hmem with heq | hmem
    · cases heq
    · exact h.quiet other hmem

theorem Gated.change (h : Gated e) (hcal : e.gatewayEpoch.isSome=true → e.calls=[])
    (epoch : String) : Gated (changeEpoch epoch e) := by
  unfold changeEpoch
  dsimp only
  split
  next hpri =>
    have hcas : ∀ u other, Function.update e.transitions e.nextTransition
        (some ⟨e.gatewayTransition,.waiting⟩) u=some other →
        (u=e.nextTransition ∧ other.phase=.waiting) ∨ e.transitions u=some other := by
      intro u other hu
      by_cases he : u=e.nextTransition
      · subst he
        rw [Function.update_self] at hu
        cases hu
        exact .inl ⟨rfl,rfl⟩
      · rw [Function.update_of_ne he] at hu
        exact .inr hu
    refine ⟨?_,?_,?_,?_,?_,nofun,?_,?_,h.fenced.cons nofun⟩
    · intro u other hu
      show u<e.nextTransition+1
      rcases hcas u other hu with ⟨rfl,_⟩ | hu
      · omega
      · have := h.bounded u other hu
        omega
    · intro t ht
      obtain rfl : e.nextTransition=t := Option.some.inj ht
      rfl
    · intro call hcall
      rw [hcal hpri] at hcall
      cases hcall
    · intro t ht
      obtain rfl : e.nextTransition=t := Option.some.inj ht
      rfl
    · intro u other hu hf
      rcases hcas u other hu with ⟨_,hw⟩ | hu
      · rw [hw] at hf
        cases hf
      · exact mem_cons_of_mem _ (h.done u other hu hf)
    · intro u other hu
      rcases hcas u other hu with ⟨_,hw⟩ | hu
      · rw [hw]
        nofun
      · exact h.accepted u other hu
    · intro call hmem
      rcases mem_cons.mp hmem with heq | hmem
      · cases heq
      · exact h.quiet call hmem
  · exact ⟨h.bounded,h.current,h.waiting,h.latest,h.done,h.free,h.accepted,h.quiet,h.fenced⟩

theorem gated_observe (h : Gated e) (epoch : String)
    (hord : e.gatewayEpoch.isNone || e.gatewayEpoch == some epoch || e.calls.isEmpty) :
    Gated (e.observeGatewayEpoch epoch) := by
  have hcal : Gated { e with
      nextCall := e.nextCall+1, history := .called e.nextCall::e.history } := by
    have := h.event (.called e.nextCall) rfl nofun nofun
    exact ⟨this.bounded,this.current,this.waiting,this.latest,this.done,this.free,this.accepted,
      this.quiet,this.fenced⟩
  unfold observeGatewayEpoch
  dsimp only
  generalize hg : (if e.gatewayEpoch=some epoch then _ else changeEpoch epoch _)=g
  have hgat : Gated g := by
    rw [← hg]
    split
    · exact hcal
    next hne =>
      apply hcal.change
      intro hsom
      have hsom' : e.gatewayEpoch.isSome=true := hsom
      have hnon : e.gatewayEpoch.isNone=false := by
        rw [isNone_eq_false_iff]
        exact hsom'
      have hoth : (e.gatewayEpoch == some epoch)=false := by simpa using hne
      rw [hnon,hoth] at hord
      simpa using hord
  split
  next hnon => exact hgat.resolve (hgat.free hnon) _
  next t ht =>
    refine ⟨hgat.bounded,hgat.current,?_,hgat.latest,hgat.done,hgat.free,
      hgat.accepted,hgat.quiet,hgat.fenced⟩
    intro call hcall
    rcases mem_append.mp hcall with hold | hnew
    · exact hgat.waiting call hold
    · rw [mem_singleton.mp hnew]
      exact hgat.current t ht

theorem Gated.leases (h : Gated e) (leases : LeaseManager) :
    Gated { e with leases := leases } :=
  ⟨h.bounded,h.current,h.waiting,h.latest,h.done,h.free,h.accepted,h.quiet,h.fenced⟩

variable {e' : ToolExecutor}

theorem gated_start (h : Gated e) {t : ℕ} {epoch : Base64Url} (hs : e.startTransition t epoch=some e') :
    Gated e' := by
  unfold startTransition at hs
  split at hs
  swap
  · cases hs
  next transition ht =>
    dsimp only at hs
    have hsta : ∀ leases p, Gated (ToolExecutor.setPhase { e with leases := leases } t transition
        (.resetting p)) := fun leases p => (h.leases leases).setPhase ht nofun nofun
    split at hs
    swap
    · cases hs
    split at hs
    · cases hs
      exact hsta _ _
    next q _ =>
      split at hs
      · cases hs
        exact hsta _ _
      next hrej =>
        obtain ⟨previous,hq,hpha⟩ := map_eq_some_iff.mp hrej
        exact absurd hpha (h.accepted q previous hq)
      · cases hs

theorem gated_settle (h : Gated e) {t : ℕ} (hord : orderly e (.settle t)=true) (hs : e.settleTransition t=some e') :
    Gated e' := by
  unfold settleTransition at hs
  split at hs
  swap
  · cases hs
  next transition ht =>
    split at hs
    swap
    · cases hs
    next p hp =>
      split at hs
      · cases hs
        have heve:=h.event (.completed t) rfl nofun nofun
        exact heve.setPhase ht nofun fun _ => mem_cons_self
      next failure hfai => simp [orderly,ht,hp,hfai] at hord
      · cases hs

theorem gated_resume (h : Gated e) {call : GatewayCall} (hs : e.resumeCall call=some e') : Gated e' := by
  unfold resumeCall at hs
  split at hs
  swap
  · cases hs
  next hcal =>
    have hlat:=h.waiting call hcal
    have hres : ∀ other ∈ e.calls.erase call, other.transition+1=e.nextTransition :=
      fun other hoth => h.waiting other (mem_of_mem_erase hoth)
    dsimp only at hs
    split at hs
    next hful =>
      cases hs
      obtain ⟨transition,ht,hpha⟩ := map_eq_some_iff.mp hful
      have hdon : ∀ t, t+1=e.nextTransition → .completed t ∈ e.history := by
        intro t hnex
        have : t=call.transition := by omega
        rw [this]
        exact h.done _ transition ht hpha
      have hcle : ∀ t, (if e.gatewayTransition=some call.transition then none
          else e.gatewayTransition)=some t → t+1=e.nextTransition := by
        intro t hcur
        split at hcur
        · cases hcur
        · exact h.current t hcur
      apply Gated.resolve (e := { e with
        calls := e.calls.erase call
        gatewayTransition := if e.gatewayTransition=some call.transition then none
          else e.gatewayTransition }) _ hdon
      exact ⟨h.bounded,hcle,hres,h.latest,h.done,fun _ => hdon,h.accepted,h.quiet,h.fenced⟩
    next hrej =>
      obtain ⟨transition,ht,hpha⟩ := map_eq_some_iff.mp hrej
      exact absurd hpha (h.accepted _ transition ht)
    · cases hs

theorem gated_step {a : GatewayAction} (h : Gated e) (hord : orderly e a=true) (hs : gatewaySystem.step e a=some e') :
    Gated e' := by
  change gatewayStep e a=some e' at hs
  cases a with
  | observe epoch =>
    cases hs
    exact gated_observe h epoch hord
  | start t epoch => exact gated_start h hs
  | settle t => exact gated_settle h hord hs
  | resume call => exact gated_resume h hs
  | lease action =>
    obtain ⟨leases,_,rfl⟩ := map_eq_some_iff.mp hs
    exact h.leases leases

/-- In a run in which no reset fails and no request brings another epoch while requests
wait, every request goes on under a completed reset, and none is turned away. -/
theorem gateway_epochs_fenced {e₀ e : ToolExecutor} {actions : List GatewayAction}
    (h₀ : gatewaySystem.initial e₀)
    (hr : gatewaySystem.RunWhere (fun e a => orderly e a=true) e₀ actions e) :
    Fenced e.history ∧ Recovers e.history := by
  obtain ⟨leases,_,rfl⟩ := h₀
  have h : Gated e := hr.preserves (fun _ _ _ hg hc hs => gated_step hg hc hs) (gated_create leases)
  refine ⟨h.fenced,?_⟩
  intro after call between before hs _
  have hmem : .threw call ∈ e.history := by
    rw [hs]
    exact mem_append_right _ mem_cons_self
  exact absurd hmem (h.quiet call)

def exampleExecutor : ToolExecutor := create (LeaseManager.create 0 ⟨"e",alphabet_of_all (by decide)⟩)

def transitionRun : List GatewayAction :=
  [.observe "g",.observe "h",.start 0 ⟨"f",alphabet_of_all (by decide)⟩,.lease (.startRevocation 0),
    .lease (.settleHandler 0 (.resolved 0)),.settle 0,.resume ⟨1,0⟩]

theorem gateway_epochs_fenced_run : ∃ e : ToolExecutor, .resolved 1 ∈ e.history ∧
    Fenced e.history ∧ Recovers e.history := by
  have hrun : (gatewaySystem.execWhere orderly exampleExecutor transitionRun).map
      (fun e => decide (.resolved 1 ∈ e.history))=some true := by decide
  obtain ⟨e,he,hres⟩ := map_eq_some_iff.mp hrun
  exact ⟨e,by simpa using hres,gateway_epochs_fenced ⟨_,⟨0,_,rfl⟩,rfl⟩
    (TransitionSystem.runWhere_of_exec he)⟩

/- The reset of the second gateway fails. A takeover repeats the revocation with
success, and still the next request of that gateway is turned away. -/
def failedRun : List GatewayAction :=
  [.observe "g",.observe "h",.start 0 ⟨"f",alphabet_of_all (by decide)⟩,.lease (.startRevocation 0),
    .lease (.settleHandler 0 (.rejected (.error "stuck"))),.settle 0,.resume ⟨1,0⟩,
    .lease (.observeRevocation 0 ⟨"a",alphabet_of_all (by decide)⟩),.lease .takeHumanControl,
    .lease (.startRevocation 1),.lease (.settleHandler 1 (.resolved 0)),.observe "h",.resume ⟨2,0⟩]

/- A third gateway comes while a request of the second one waits. -/
def overtakenRun : List GatewayAction :=
  [.observe "g",.observe "h",.observe "i",.start 0 ⟨"f",alphabet_of_all (by decide)⟩,
    .lease (.startRevocation 0),.lease (.settleHandler 0 (.resolved 0)),.settle 0,.resume ⟨1,0⟩]

theorem reachable_of_history {actions : List GatewayAction}
    (h : (gatewaySystem.exec exampleExecutor actions).map ToolExecutor.history=some history) :
    ∃ e, gatewaySystem.Reachable e ∧ e.history=history := by
  obtain ⟨e,he,hhis⟩ := map_eq_some_iff.mp h
  exact ⟨e,⟨_,actions,⟨_,⟨0,_,rfl⟩,rfl⟩,TransitionSystem.run_of_exec he⟩,hhis⟩

/-- After a failed reset a request throws although no reset has failed since it was
made; and a request goes on while the reset for a later gateway is outstanding. -/
theorem gateway_transitions_stuck :
    (∃ e, gatewaySystem.Reachable e ∧ ¬ Recovers e.history) ∧
      ∃ e, gatewaySystem.Reachable e ∧ ¬ Fenced e.history := by
  constructor
  · have hrun : (gatewaySystem.exec exampleExecutor failedRun).map ToolExecutor.history =
        some [.threw 2,.called 2,.threw 1,.failed 0,.changed 0,.called 1,.resolved 0,
          .called 0] := by decide
    obtain ⟨e,he,hhis⟩ := reachable_of_history hrun
    refine ⟨e,he,?_⟩
    intro h
    rw [hhis] at h
    obtain ⟨t,ht⟩ := h [] 2 [] _ rfl ⟨0,by decide⟩
    cases ht
  · have hrun : (gatewaySystem.exec exampleExecutor overtakenRun).map ToolExecutor.history =
        some [.resolved 1,.completed 0,.changed 1,.called 2,.changed 0,.called 1,.resolved 0,
          .called 0] := by decide
    obtain ⟨e,he,hhis⟩ := reachable_of_history hrun
    refine ⟨e,he,?_⟩
    intro h
    rw [hhis] at h
    have := h [] 1 _ rfl 1 rfl
    revert this
    decide

end Qubicl.Control
