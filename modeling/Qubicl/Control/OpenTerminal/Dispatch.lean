import Qubicl.Control.OpenTerminal.LeaseBooks

/-!
# What compatibility requests dispatch, and with whose proof

Of each request, its phase says how often its tool or its action has begun.
-/

namespace Qubicl.Control.OpenTerminal
open Foundation LeaseManager List Option

/-- Something is done for the tool before it has its turn with the browser, where its proof is checked again. -/
def ToolCall.worksBeforeTurn (browserCapable : Bool) (call : ToolCall) : Bool :=
  (call.name == "publish_port" && call.openInBrowser) ||
    (call.name == "web_extract" && call.render == "auto" && browserCapable)

theorem stages_single {browserCapable : Bool} {call : ToolCall} (h : call.worksBeforeTurn browserCapable=false) :
    ∃ stage, call.stages browserCapable=[stage] := by
  simp only [ToolCall.worksBeforeTurn,Bool.or_eq_false_iff,Bool.and_eq_false_iff,beq_eq_false_iff_ne] at h
  unfold ToolCall.stages
  split
  · exact ⟨_,rfl⟩
  split
  · exact ⟨_,rfl⟩
  split
  next hpub =>
    exfalso
    rcases h.1 with hnam | hopen
    · exact hnam hpub.1
    · rw [hpub.2] at hopen
      cases hopen
  split
  · split <;> exact ⟨_,rfl⟩
  split
  next hext =>
    exfalso
    rcases h.2 with (hnam | hrender) | hcapable
    · exact hnam hext.1
    · exact hrender hext.2.1
    · rw [hext.2.2] at hcapable
      cases hcapable
  · exact ⟨_,rfl⟩

def Phase.Backed (acquisitions : List Acquisition) (key : String) : Phase → Prop
  | .acquiring _ a => Pending acquisitions key a
  | .holding _ proof | .queued _ proof _ _ | .working _ proof _ | .rejected _ proof _ => Owned acquisitions key proof
  | .plain | .releasing _ | .ended _ => True

/- How often the action of `withLease` was invoked. -/
def Phase.Invoking (invoked : ℕ) : Phase → Prop
  | .acquiring .. | .holding .. => invoked=0
  | .working _ _ rest => rest=[] ∧ invoked≤1
  | .ended _ => invoked≤1
  | _ => False

/- The dispatches of a tool, the last first: the ones before it have not begun to work. -/
def Phase.Dispatching (dispatches : List Bool) : Phase → Prop
  | .plain => dispatches=[true]
  | .acquiring attempt _ | .holding attempt _ => attempt≤1 ∧ dispatches=List.replicate attempt false
  | .queued attempt _ _ rest => attempt≤1 ∧ rest=[] ∧ dispatches=false::List.replicate attempt false
  | .working attempt _ rest => attempt≤1 ∧ rest=[] ∧ dispatches=true::List.replicate attempt false
  | .rejected attempt _ _ => attempt≤1 ∧ dispatches=false::List.replicate attempt false
  | .releasing _ => dispatches=[false]
  | .ended _ => dispatches.length≤2 ∧ ∀ begun ∈ dispatches.drop 1, begun=false

structure Request.Fits (browserCapable : Bool) (acquisitions : List Acquisition) (r : Request) : Prop where
  backed : r.phase.Backed acquisitions r.key
  action : r.call=none → r.dispatches=[] ∧ r.phase.Invoking r.invoked
  tool : ∀ call, r.call=some call →
    call.worksBeforeTurn browserCapable=false ∧ r.invoked=0 ∧ r.phase.Dispatching r.dispatches

structure Sound (w : Compatibility) : Prop where
  books : Books w
  requests : ∀ r ∈ w.requests, r.Fits w.browserCapable w.acquisitions

variable {f : Request → Request} {actor : CompatibilityActor} {draw : Draw}

section Requests
variable {w w' : Compatibility} {c attempt a : ℕ} {proof : LeaseProof} {acquisitions acquisitions' : List Acquisition}
  {browserCapable : Bool} {r : Request} {phase : Phase} {key : String}

theorem Phase.Backed.mono (h : phase.Backed acquisitions key) (hext : Extends acquisitions acquisitions') :
    phase.Backed acquisitions' key := by
  cases phase with
  | acquiring attempt a => exact hext.pending h
  | holding => exact hext.owned h
  | queued => exact hext.owned h
  | working => exact hext.owned h
  | rejected => exact hext.owned h
  | plain => trivial
  | releasing => trivial
  | ended => trivial

theorem Request.Fits.mono (h : r.Fits browserCapable acquisitions) (hext : Extends acquisitions acquisitions') :
    r.Fits browserCapable acquisitions' :=
  ⟨h.backed.mono hext,h.action,h.tool⟩

theorem Phase.Invoking.le_one {invoked : ℕ} (h : phase.Invoking invoked) : invoked≤1 := by
  cases phase with
  | acquiring => exact Nat.le_trans (Nat.le_of_eq h) (Nat.zero_le 1)
  | holding => exact Nat.le_trans (Nat.le_of_eq h) (Nat.zero_le 1)
  | working => exact h.2
  | ended => exact h
  | plain => exact h.elim
  | queued => exact h.elim
  | rejected => exact h.elim
  | releasing => exact h.elim

/- At most one dispatch before the last, and none of those that has begun. -/
theorem once_of_replicate {begun : Bool} (h : attempt≤1) :
    (begun::List.replicate attempt false).length≤2 ∧
      ∀ begun' ∈ (begun::List.replicate attempt false).drop 1, begun'=false := by
  refine ⟨?_,fun begun' hmem => (mem_replicate.1 hmem).2⟩
  rw [length_cons,length_replicate]
  omega

theorem Phase.Dispatching.once {dispatches : List Bool} (h : phase.Dispatching dispatches) :
    dispatches.length≤2 ∧ ∀ begun ∈ dispatches.drop 1, begun=false := by
  have hwai : ∀ {attempt : ℕ}, attempt≤1 → (List.replicate attempt false).length≤2 ∧
      ∀ begun ∈ (List.replicate attempt false).drop 1, begun=false := by
    intro attempt hle
    rw [length_replicate]
    exact ⟨by omega,fun begun hmem => (mem_replicate.1 (mem_of_mem_drop hmem)).2⟩
  cases phase with
  | plain => exact h ▸ @once_of_replicate 0 true (by omega)
  | acquiring attempt a => exact h.2 ▸ hwai h.1
  | holding attempt proof => exact h.2 ▸ hwai h.1
  | queued attempt proof stage rest => exact h.2.2 ▸ once_of_replicate h.1
  | working attempt proof rest => exact h.2.2 ▸ once_of_replicate h.1
  | rejected attempt proof error => exact h.2 ▸ once_of_replicate h.1
  | releasing result => exact h ▸ @once_of_replicate 0 false (by omega)
  | ended outcome => exact h

theorem Request.Fits.ended (h : r.Fits browserCapable acquisitions) (outcome : Outcome) :
    Request.Fits browserCapable acquisitions { r with phase := .ended outcome } :=
  ⟨trivial,fun hcal => ⟨(h.action hcal).1,(h.action hcal).2.le_one⟩,
    fun call hcal => ⟨(h.tool call hcal).1,(h.tool call hcal).2.1,(h.tool call hcal).2.2.once⟩⟩

theorem Sound.update (h : Sound w) (hboo : Books w') (hext : Extends w.acquisitions w'.acquisitions)
    (hcap : w'.browserCapable=w.browserCapable) (hreq : w'.requests=w.requests.modify c f)
    (hf : ∀ r, w.requests[c]? = some r → (f r).Fits w.browserCapable w'.acquisitions) : Sound w' := by
  refine ⟨hboo,fun r hr => ?_⟩
  rw [hreq] at hr
  obtain ⟨k,hk⟩ := getElem?_of_mem hr
  rw [hcap]
  rcases getElem?_modify_cases hk with ⟨rfl,before,hbef,rfl⟩ | ⟨-,hbef⟩
  · exact hf before hbef
  · exact (h.requests r (mem_of_getElem? hbef)).mono hext

theorem Sound.request (h : Sound w) (hr : w.requests[c]? = some r) : r.Fits w.browserCapable w.acquisitions :=
  h.requests r (mem_of_getElem? hr)

theorem Sound.goOn (h : Sound w) (manager : LeaseManager)
    (hf : ∀ r, w.requests[c]? = some r → (f r).Fits w.browserCapable w.acquisitions) :
    Sound (Compatibility.modifyRequest c f { w with manager := manager }) :=
  h.update (h.books.same rfl rfl rfl rfl) (.refl _) rfl rfl hf

theorem Sound.endRequest (h : Sound w) (manager : LeaseManager) (outcome : Outcome) :
    Sound (Compatibility.setPhase c (.ended outcome) { w with manager := manager }) :=
  h.goOn manager fun _ hr => (h.request hr).ended outcome

end Requests

section Steps
variable {w w' : Compatibility} {c attempt : ℕ} {proof : LeaseProof} {r : Request} {call : ToolCall}

theorem getElem?_append_single {α : Type} {l : List α} {x y : α} {k : ℕ} (hne : k≠l.length)
    (h : (l++[x])[k]? = some y) : l[k]? = some y := by
  obtain ⟨hlt,-⟩ := List.getElem?_eq_some_iff.1 h
  rw [length_append,length_singleton] at hlt
  rw [getElem?_append_left (by omega)] at h
  exact h

theorem Sound.append (h : Sound w) (hr : r.Fits w.browserCapable w.acquisitions) :
    Sound { w with requests := w.requests++[r] } := by
  refine ⟨h.books.same rfl rfl rfl rfl,fun r' hr' => ?_⟩
  rcases mem_append.1 hr' with hold | hnew
  · exact h.requests r' hold
  · rw [mem_singleton.1 hnew]
    exact hr

/- A request that comes to `ensureLease`: none of its dispatches has begun. -/
structure Request.Asks (browserCapable : Bool) (attempt : ℕ) (r : Request) : Prop where
  action : r.call=none → r.dispatches=[] ∧ r.invoked=0
  tool : ∀ call, r.call=some call → call.worksBeforeTurn browserCapable=false ∧ r.invoked=0 ∧ attempt≤1 ∧
    r.dispatches=List.replicate attempt false

theorem Request.Asks.ensured {browserCapable : Bool} {acquisitions : List Acquisition} {phase : Phase}
    (h : r.Asks browserCapable attempt) (hpha : Ensured acquisitions attempt r.key phase) :
    Request.Fits browserCapable acquisitions { r with phase := phase } := by
  cases hpha with
  | limit =>
    refine ⟨trivial,fun hcal => ⟨(h.action hcal).1,Nat.le_trans (Nat.le_of_eq (h.action hcal).2) (Nat.zero_le 1)⟩,?_⟩
    intro call hcal
    obtain ⟨hsin,hinv,hatt,hdis⟩ := h.tool call hcal
    have hacq : (Phase.acquiring attempt 0).Dispatching r.dispatches := ⟨hatt,hdis⟩
    exact ⟨hsin,hinv,hacq.once⟩
  | acquiring hpen => exact ⟨hpen,h.action,h.tool⟩
  | holding hown => exact ⟨hown,h.action,h.tool⟩

theorem Sound.ensureLease (hboo : Books w) {key : String}
    (hoth : ∀ (k : ℕ) r, k≠c → w.requests[k]? = some r → r.Fits w.browserCapable w.acquisitions)
    (hass : ∀ r, w.requests[c]? = some r → r.key=key ∧ r.Asks w.browserCapable attempt) :
    Sound (w.ensureLease c attempt key actor draw) := by
  obtain ⟨phase,w',heq,hboo',hext,hcap,hreq,hpha⟩ :=
    ensureLease_spec hboo c attempt key actor draw
  rw [heq]
  refine ⟨hboo'.same rfl rfl rfl rfl,fun r hr => ?_⟩
  obtain ⟨k,hk⟩ := getElem?_of_mem hr
  have hk' : (w.requests.modify c fun r => { r with phase := phase })[k]? = some r := by
    rw [← hreq]
    exact hk
  show r.Fits w'.browserCapable w'.acquisitions
  rw [hcap]
  rcases getElem?_modify_cases hk' with ⟨rfl,before,hbef,rfl⟩ | ⟨hne,hbef⟩
  · obtain ⟨hkey,hask⟩ := hass before hbef
    exact hask.ensured (hkey ▸ hpha)
  · exact (hoth k r (Ne.symm hne) hbef).mono hext

theorem Sound.retry (h : Sound w) (manager : LeaseManager) (hr : w.requests[c]? = some r)
    (hask : r.Asks w.browserCapable 1) :
    Sound (Compatibility.ensureLease c 1 r.key actor draw { w with manager := manager }) := by
  have hboo : Books { w with manager := manager } := h.books.same rfl rfl rfl rfl
  refine Sound.ensureLease hboo (fun k r' _ hr' => h.request hr') ?_
  intro r' hr'
  obtain rfl := Option.some.inj (hr.symm.trans hr')
  exact ⟨rfl,hask⟩

theorem Sound.forget (h : Sound w) (i : ℕ) : Sound (w.forget i) := ⟨h.books.forget i,h.requests⟩

theorem start_sound (h : Sound w) (key : String) (call : Option ToolCall) (actor : CompatibilityActor) (draw : Draw)
    (hsin : ∀ call' ∈ call, call'.worksBeforeTurn w.browserCapable=false) : Sound (w.start key call actor draw) := by
  unfold Compatibility.start
  dsimp only
  split
  next hfre =>
    refine h.append ⟨trivial,fun hnon => ?_,fun call' hcal => ⟨hsin call' hcal,rfl,rfl⟩⟩
    have hcal : call=none := hnon
    rw [hcal] at hfre
    cases hfre
  next =>
    split
    next =>
      exact h.append ⟨trivial,fun _ => ⟨rfl,Nat.zero_le 1⟩,fun call' hcal => ⟨hsin call' hcal,rfl,Nat.zero_le 2,
        fun _ hmem => by cases hmem⟩⟩
    next i v hcur =>
      have hasi:=currentLeaseState_aside hcur
      obtain ⟨hboo,-⟩ := currentLeaseState_books h.books hcur
      have hask : Books { v with requests := v.requests++[⟨key,call,actor,i,.acquiring 0 0,0,[]⟩] } :=
        hboo.same rfl rfl rfl rfl
      refine Sound.ensureLease hask ?_ ?_
      · intro k r hne hr
        have hlen : v.requests.length=w.requests.length := by rw [hasi.requests]
        have hr':=getElem?_append_single (by rw [hlen]; exact hne) hr
        rw [hasi.requests] at hr'
        show r.Fits v.browserCapable v.acquisitions
        rw [hasi.browserCapable,hasi.acquisitions]
        exact h.request hr'
      · intro r hr
        have hlas : (v.requests++[⟨key,call,actor,i,.acquiring 0 0,0,[]⟩])[w.requests.length]? = some r := hr
        rw [← hasi.requests,getElem?_concat_length] at hlas
        obtain rfl := Option.some.inj hlas
        refine ⟨rfl,fun _ => ⟨rfl,rfl⟩,fun call' hcal => ⟨?_,rfl,Nat.zero_le 1,rfl⟩⟩
        show call'.worksBeforeTurn v.browserCapable=false
        rw [hasi.browserCapable]
        exact hsin call' hcal

/- After `executor.call`: the tool is refused, or waits for its turn, or works. -/
inductive AfterDispatch (attempt : ℕ) (proof : LeaseProof) (r : Request) : Request → Prop
  | rejected (error : QubiclError) :
      AfterDispatch attempt proof r { r with phase := .rejected attempt proof error, dispatches := false::r.dispatches }
  | queued (stage : Stage) :
      AfterDispatch attempt proof r { r with phase := .queued attempt proof stage [], dispatches := false::r.dispatches }
  | working : AfterDispatch attempt proof r { r with phase := .working attempt proof [], dispatches := true::r.dispatches }

theorem modifyRequest_modifyRequest (w : Compatibility) (c : ℕ) (f g : Request → Request) :
    (w.modifyRequest c f).modifyRequest c g=w.modifyRequest c (g ∘ f) := by
  simp only [Compatibility.modifyRequest,modify_modify_eq]

theorem enter_single (w : Compatibility) (c attempt : ℕ) (proof : LeaseProof) (stage : Stage) :
    ∃ f, (w.modifyRequest c fun r => { r with dispatches := false::r.dispatches }).enter c attempt proof [stage] =
      w.modifyRequest c f ∧ ∀ r, AfterDispatch attempt proof r (f r) := by
  cases stage with
  | direct =>
    refine ⟨_,modifyRequest_modifyRequest w c _ _,fun r => ?_⟩
    exact .working
  | browser =>
    refine ⟨_,modifyRequest_modifyRequest w c _ _,fun r => ?_⟩
    exact .queued .browser
  | desktop =>
    refine ⟨_,modifyRequest_modifyRequest w c _ _,fun r => ?_⟩
    exact .queued .desktop

theorem dispatch_cases (w : Compatibility) (c attempt : ℕ) (proof : LeaseProof) (refusal : Option QubiclError)
    (hsin : call.worksBeforeTurn w.browserCapable=false) :
    ∃ manager f, w.dispatch c attempt proof call refusal =
      Compatibility.modifyRequest c f { w with manager := manager } ∧ ∀ r, AfterDispatch attempt proof r (f r) := by
  obtain ⟨stage,hsta⟩ := stages_single hsin
  have hent : ∀ manager, ∃ f, Compatibility.enter c attempt proof (call.stages w.browserCapable)
      { w.modifyRequest c (fun r => { r with dispatches := false::r.dispatches }) with manager := manager } =
        Compatibility.modifyRequest c f { w with manager := manager } ∧ ∀ r, AfterDispatch attempt proof r (f r) := by
    intro manager
    rw [hsta]
    exact enter_single { w with manager := manager } c attempt proof stage
  have hrej : ∀ manager error, Compatibility.setPhase c (.rejected attempt proof error)
      { w.modifyRequest c (fun r => { r with dispatches := false::r.dispatches }) with manager := manager } =
        Compatibility.modifyRequest c (fun r =>
          { r with phase := .rejected attempt proof error, dispatches := false::r.dispatches })
            { w with manager := manager } :=
    fun manager error => modifyRequest_modifyRequest { w with manager := manager } c _ _
  unfold Compatibility.dispatch
  dsimp only
  split
  next error => exact ⟨w.manager,_,hrej w.manager error,fun r => .rejected error⟩
  next =>
    split
    next manager error _ => exact ⟨manager,_,hrej manager _,fun r => .rejected _⟩
    next manager owner _ =>
      split
      · split
        next manager' error _ => exact ⟨manager',_,hrej manager' _,fun r => .rejected _⟩
        next manager' _ _ => exact ⟨manager',hent manager'⟩
      · exact ⟨manager,hent manager⟩

theorem AfterDispatch.fits {browserCapable : Bool} {acquisitions : List Acquisition} {r' : Request}
    (h : AfterDispatch attempt proof r r') (hr : r.Fits browserCapable acquisitions)
    (hpha : r.phase=.holding attempt proof) (hcal : r.call=some call) : r'.Fits browserCapable acquisitions := by
  have hown:=hr.backed
  have htoo:=hr.tool
  rw [hpha] at hown htoo
  have hnon : r.call≠none := by
    rw [hcal]
    exact fun heq => by cases heq
  cases h with
  | rejected error =>
    refine ⟨hown,fun h => absurd h hnon,fun call' hcal' => ?_⟩
    obtain ⟨hsin,hinv,hatt,hdis⟩ := htoo call' hcal'
    exact ⟨hsin,hinv,hatt,congrArg (false :: ·) hdis⟩
  | queued stage =>
    refine ⟨hown,fun h => absurd h hnon,fun call' hcal' => ?_⟩
    obtain ⟨hsin,hinv,hatt,hdis⟩ := htoo call' hcal'
    exact ⟨hsin,hinv,hatt,rfl,congrArg (false :: ·) hdis⟩
  | working =>
    refine ⟨hown,fun h => absurd h hnon,fun call' hcal' => ?_⟩
    obtain ⟨hsin,hinv,hatt,hdis⟩ := htoo call' hcal'
    exact ⟨hsin,hinv,hatt,rfl,congrArg (true :: ·) hdis⟩

end Steps

section Runs
variable {w w' : Compatibility} {c : ℕ}

section
variable (h : Sound w)
include h

theorem joined_sound (hste : w.joined c=some w') : Sound w' := by
  unfold Compatibility.joined at hste
  split at hste
  swap
  · cases hste
  next attempt a hpha =>
    obtain ⟨r,hr,hpha⟩ := map_eq_some_iff.1 hpha
    have hfit:=h.request hr
    split at hste
    swap
    · cases hste
    next acquisition ha =>
      split at hste
      next proof hsta hres =>
        cases hste
        refine h.goOn w.manager fun r' hr' => ?_
        obtain rfl := Option.some.inj (hr.symm.trans hr')
        obtain ⟨hbac,hact,htoo⟩ := hfit
        rw [hpha] at hbac hact htoo
        obtain ⟨acquisition',ha',hkey⟩ := hbac
        obtain rfl := Option.some.inj (ha.symm.trans ha')
        exact ⟨⟨a,acquisition,ha,hkey,hres⟩,hact,htoo⟩
      next error hsta hres =>
        cases hste
        exact h.endRequest w.manager (.failed error)
      · cases hste

theorem invoke_sound {r : Request} {attempt : ℕ} {proof : LeaseProof} (hr : w.requests[c]? = some r)
    (hpha : r.phase=.holding attempt proof) (hcal : r.call=none) : Sound (w.invoke c attempt proof r draw) := by
  have hfit:=h.request hr
  obtain ⟨hbac,hact,htoo⟩ := hfit
  rw [hpha] at hbac hact
  obtain ⟨hdis,hinv⟩ := hact hcal
  have hask : r.Asks w.browserCapable 1 := by
    refine ⟨fun _ => ⟨hdis,hinv⟩,fun call hsom => ?_⟩
    rw [hcal] at hsom
    cases hsom
  unfold Compatibility.invoke
  split
  next manager _ _ =>
    refine h.goOn manager fun r' hr' => ?_
    obtain rfl := Option.some.inj (hr.symm.trans hr')
    refine ⟨hbac,fun _ => ⟨hdis,rfl,?_⟩,fun call hsom => ?_⟩
    · have hzer : r.invoked=0 := hinv
      show r.invoked+1≤1
      omega
    · have hsom' : r.call=some call := hsom
      rw [hcal] at hsom'
      cases hsom'
  next manager error _ =>
    dsimp only
    split
    · exact h.endRequest manager (.failed error)
    · split
      · exact (h.forget r.state).retry manager hr hask
      · exact h.retry manager hr hask

theorem go_sound {refusal : Option QubiclError} (hste : w.go c refusal draw=some w') : Sound w' := by
  unfold Compatibility.go at hste
  split at hste
  swap
  · cases hste
  next r hr =>
    split at hste
    swap
    · cases hste
    next attempt proof hpha =>
      have hfit:=h.request hr
      have hown:=hfit.backed
      rw [hpha] at hown
      have hboo : Books { w with uses := (r.key,proof)::w.uses } := by
        refine ⟨h.books.mapped,h.books.remembered,h.books.pending,h.books.acquired,fun use huse => ?_⟩
        rcases mem_cons.1 huse with rfl | hold
        · exact hown
        · exact h.books.used use hold
      have husd : Sound { w with uses := (r.key,proof)::w.uses } := ⟨hboo,h.requests⟩
      dsimp only at hste
      split at hste
      next hcal =>
        cases hste
        exact invoke_sound husd hr hpha hcal
      next call hcal =>
        split at hste
        · cases hste
        · cases hste
          have hsin:=(hfit.tool call hcal).1
          obtain ⟨manager,f,hdis,hf⟩ := dispatch_cases { w with uses := (r.key,proof)::w.uses } c attempt proof
            refusal hsin
          rw [hdis]
          refine husd.goOn manager fun r' hr' => ?_
          obtain rfl := Option.some.inj (hr.symm.trans hr')
          exact (hf r).fits hfit hpha hcal

theorem turn_sound (hste : w.turn c=some w') : Sound w' := by
  unfold Compatibility.turn at hste
  split at hste
  swap
  · cases hste
  next attempt proof stage rest hpha =>
    obtain ⟨r,hr,hpha⟩ := map_eq_some_iff.1 hpha
    obtain ⟨hbac,hact,htoo⟩ := h.request hr
    rw [hpha] at hbac hact htoo
    split at hste
    next manager error _ =>
      cases hste
      refine h.goOn manager fun r' hr' => ?_
      obtain rfl := Option.some.inj (hr.symm.trans hr')
      refine ⟨hbac,fun hnon => (hact hnon).2.elim,fun call hcal => ?_⟩
      obtain ⟨hsin,hinv,hatt,-,hdis⟩ := htoo call hcal
      exact ⟨hsin,hinv,hatt,hdis⟩
    next manager _ _ =>
      cases hste
      refine h.goOn manager fun r' hr' => ?_
      obtain rfl := Option.some.inj (hr.symm.trans hr')
      refine ⟨hbac,fun hnon => (hact hnon).2.elim,fun call hcal => ?_⟩
      obtain ⟨hsin,hinv,hatt,hres,hdis⟩ := htoo call hcal
      refine ⟨hsin,hinv,hatt,hres,?_⟩
      show true::r.dispatches.drop 1=_
      rw [hdis]
      rfl

theorem advance_none : w.advance c=none := by
  unfold Compatibility.advance
  split
  next attempt proof stage rest hpha =>
    exfalso
    obtain ⟨r,hr,hpha⟩ := map_eq_some_iff.1 hpha
    obtain ⟨-,hact,htoo⟩ := h.request hr
    rw [hpha] at hact htoo
    cases hcal : r.call with
    | none => cases (hact hcal).2.1
    | some call => cases (htoo call hcal).2.2.2.1
  next => rfl

theorem finish_sound {outcome : Outcome} (hste : w.finish c outcome=some w') : Sound w' := by
  unfold Compatibility.finish at hste
  split at hste
  swap
  · cases hste
  · split at hste
    · cases hste
      exact h.endRequest w.manager _
    · split at hste
      · cases hste
      · cases hste
        exact h.endRequest w.manager _
    · cases hste
      exact h.endRequest w.manager _
    · cases hste

theorem caught_sound (hste : w.caught c draw=some w') : Sound w' := by
  unfold Compatibility.caught at hste
  split at hste
  swap
  · cases hste
  next r hr =>
    split at hste
    swap
    · cases hste
    next attempt proof error hpha =>
      obtain ⟨hbac,hact,htoo⟩ := h.request hr
      rw [hpha] at hact htoo
      dsimp only at hste
      split at hste
      · cases hste
        exact h.endRequest w.manager (.failed error)
      next hret =>
        obtain ⟨-,hfir⟩ := not_or.1 hret
        obtain rfl : attempt=0 := by omega
        have hask : r.Asks w.browserCapable 1 :=
          ⟨fun hnon => (hact hnon).2.elim,fun call hcal =>
            ⟨(htoo call hcal).1,(htoo call hcal).2.1,Nat.le_refl 1,(htoo call hcal).2.2.2⟩⟩
        split at hste
        · split at hste
          · cases hste
            refine (h.forget r.state).goOn _ fun r' hr' => ?_
            obtain rfl := Option.some.inj (hr.symm.trans hr')
            exact ⟨trivial,fun hnon => (hact hnon).2.elim,fun call hcal =>
              ⟨(htoo call hcal).1,(htoo call hcal).2.1,(htoo call hcal).2.2.2⟩⟩
          · cases hste
            exact (h.forget r.state).retry w.manager hr hask
        · cases hste
          exact h.retry w.manager hr hask

theorem released_sound (hste : w.released c draw=some w') : Sound w' := by
  unfold Compatibility.released at hste
  split at hste
  swap
  · cases hste
  next r hr =>
    obtain ⟨-,hact,htoo⟩ := h.request hr
    have hask : ∀ {result}, r.phase=.releasing result → r.Asks w.browserCapable 1 := by
      intro result hpha
      rw [hpha] at hact htoo
      exact ⟨fun hnon => (hact hnon).2.elim,fun call hcal =>
        ⟨(htoo call hcal).1,(htoo call hcal).2.1,Nat.le_refl 1,(htoo call hcal).2.2⟩⟩
    split at hste
    next error hpha =>
      split at hste
      · cases hste
        exact h.retry w.manager hr (hask hpha)
      · cases hste
        exact h.endRequest w.manager (.failed error)
    next p hpha =>
      split at hste
      · cases hste
        exact h.retry w.manager hr (hask hpha)
      · cases hste
        exact h.endRequest w.manager .threw
      · cases hste
    · cases hste

end

/-- No tool is called that works before its proof is checked for the last time. -/
def ChecksFirst (w : Compatibility) : CompatibilityAction → Prop
  | .start _ call _ _ => ∀ call' ∈ call, call'.worksBeforeTurn w.browserCapable=false
  | _ => True

theorem Sound.promise (h : Sound w)
    (hw' : Books w' ∧ Extends w.acquisitions w'.acquisitions ∧ w'.browserCapable=w.browserCapable ∧
      w'.requests=w.requests) : Sound w' := by
  obtain ⟨hboo,hext,hcap,hreq⟩ := hw'
  refine ⟨hboo,fun r hr => ?_⟩
  rw [hreq] at hr
  rw [hcap]
  exact (h.requests r hr).mono hext

theorem step_sound {action : CompatibilityAction} (h : Sound w) (hfir : ChecksFirst w action)
    (hste : compatibilitySystem.step w action=some w') : Sound w' := by
  change w.step action=some w' at hste
  cases action with
  | lease action =>
    obtain ⟨manager,-,rfl⟩ := map_eq_some_iff.1 hste
    exact ⟨h.books.same rfl rfl rfl rfl,h.requests⟩
  | start key call actor draw =>
    cases hste
    exact start_sound h key call actor draw hfir
  | storeProof a => exact h.promise (storeProof_books h.books hste)
  | finishAcquiring a => exact h.promise (finishAcquiring_books h.books hste)
  | joined c => exact joined_sound h hste
  | go c refusal draw => exact go_sound h hste
  | turn c => exact turn_sound h hste
  | advance c =>
    have hnon : w.advance c=some w' := hste
    rw [advance_none h] at hnon
    cases hnon
  | finish c outcome => exact finish_sound h hste
  | caught c draw => exact caught_sound h hste
  | released c draw => exact released_sound h hste
  | shutdown =>
    cases hste
    exact ⟨h.books.clear fun _ hmem => (by cases hmem),h.requests⟩

theorem initial_sound (h : compatibilitySystem.initial w) : Sound w := by
  obtain ⟨now,epoch,browserCapable,rfl⟩ := h
  refine ⟨⟨?_,?_,?_,?_,?_⟩,?_⟩
  · intro key i hmem
    cases hmem
  · intro i state proof hsta
    cases hsta
  · intro i state a hsta
    cases hsta
  · intro a acquisition ha
    cases ha
  · intro use huse
    cases huse
  · intro r hr
    cases hr

theorem run_sound {w₀ : Compatibility} {actions : List CompatibilityAction} (h : compatibilitySystem.initial w₀)
    (hrun : compatibilitySystem.RunWhere ChecksFirst w₀ actions w) : Sound w :=
  hrun.preserves (fun _ _ _ hs hfir hste => step_sound hs hfir hste) (initial_sound h)

end Runs

end Qubicl.Control.OpenTerminal
