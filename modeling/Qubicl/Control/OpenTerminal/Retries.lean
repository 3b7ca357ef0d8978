import Qubicl.Control.OpenTerminal.Healing

/-!
# A request comes to its work

Where the lease is free and nobody interferes, the number of steps that a request has before it decreases until it works with
a proof that it has acquired itself.
-/

namespace Qubicl.Control.OpenTerminal
open Foundation LeaseManager List Option

variable {draw : Draw}

section Heals
variable {free : Prop} {n c : ℕ} {w w' : Compatibility} {r : Request}

def Idle (key : String) (w : Compatibility) : Prop :=
  ∀ (i : ℕ) state, w.leases.lookup key=some i → w.states[i]? = some state → state.acquiring=none

theorem ensureLease_start {key : String} {i : ℕ} {state : CompatibilityLeaseState} {actor : CompatibilityActor}
    (hr : w.requests[c]? = some r) (hkey : r.key=key) (hpla : r.state=i) (hloo : w.leases.lookup key=some i)
    (hfou : w.states[i]? = some state) (hidl : state.acquiring=none) (hhum : w.manager.human=false)
    (hfre : free → Free w.manager ∧ draw.refusal=none) :
    ∃ r', OnCourse free w.acquisitions.length c (w.ensureLease c 0 key actor draw) r' ∧ r'.key=key := by
  subst hkey hpla
  cases hpro : state.proof with
  | none =>
    exact ⟨_,ensureLease_onCourse hr hloo hfou hpro hidl hhum (Nat.le_refl _) hfre,rfl⟩
  | some proof =>
    have hcur : w.currentLeaseState r.key=some (r.state,w) := by
      unfold Compatibility.currentLeaseState
      rw [hloo]
    have htou : (w.states.modify r.state fun state => { state with touchedAt := w.manager.now })[r.state]? =
        some { state with touchedAt := w.manager.now } := getElem?_modify_self hfou
    unfold Compatibility.ensureLease
    rw [hcur]
    dsimp only
    unfold Compatibility.modifyState
    rw [htou]
    dsimp only
    rw [hpro]
    refine ⟨_,⟨getElem?_modify_self hr,hhum,Nat.le_refl _,.inr ⟨.inr hloo,?_⟩⟩,rfl⟩
    refine .remembered ⟨_,htou,hidl,fun kept hkep => ?_⟩ fun h => (hfre h).1
    have hsom : state.proof=some kept := hkep
    exact Option.some.inj (hsom.symm.trans hpro)

theorem start_onCourse (hw : Sound w) {key : String} {call : Option ToolCall} (actor : CompatibilityActor)
    (hnee : ∀ call' ∈ call, call'.needsLease=true) (hhum : w.manager.human=false) (hidl : Idle key w)
    (hfre : free → Free w.manager ∧ (w.currentLeaseState key).isSome=true ∧ draw.refusal=none) :
    ∃ r, OnCourse free w.acquisitions.length w.requests.length (w.start key call actor draw) r ∧ r.key=key := by
  unfold Compatibility.start
  dsimp only
  split
  next hnon =>
    exfalso
    obtain ⟨call',hcal,hlea⟩ := (Option.any_eq_true ..).1 hnon
    rw [hnee call' hcal] at hlea
    cases hlea
  next =>
    split
    next hlim =>
      refine ⟨_,⟨getElem?_concat_length ..,hhum,Nat.le_refl _,.inr ⟨.inl ⟨_,rfl⟩,.ended ?_ fun h => ?_⟩⟩,rfl⟩
      · intro error heq
        cases heq
        decide
      · have hsom:=(hfre h).2.1
        rw [hlim] at hsom
        cases hsom
    next i v hcur =>
      have hasi:=currentLeaseState_aside hcur
      have hlas : (v.requests++[⟨key,call,actor,i,.acquiring 0 0,0,[]⟩])[w.requests.length]? =
          some ⟨key,call,actor,i,.acquiring 0 0,0,[]⟩ := by
        rw [← hasi.requests]
        exact getElem?_concat_length ..
      rw [← hasi.acquisitions]
      have hfre' : free → Free v.manager ∧ draw.refusal=none := by
        intro h
        rw [hasi.manager]
        exact ⟨(hfre h).1,(hfre h).2.2⟩
      have hhum' : v.manager.human=false := by
        rw [hasi.manager]
        exact hhum
      obtain ⟨state,hfou,hidl',hloo⟩ : ∃ state, v.states[i]? = some state ∧ state.acquiring=none ∧
          v.leases.lookup key=some i := by
        rcases currentLeaseState_cases hcur with ⟨hloo,rfl⟩ | ⟨leases,hsub,hadd,hnon⟩
        · obtain ⟨state,hfou,-⟩ := hw.books.mapped key i (mem_of_lookup hloo)
          exact ⟨state,hfou,hidl i state hloo hfou,hloo⟩
        · cases hadd
          refine ⟨_,getElem?_concat_length ..,rfl,?_⟩
          show (leases++[(key,w.states.length)]).lookup key=_
          rw [lookup_append,hnon]
          simp
      let asked : Compatibility := { v with requests := v.requests++[⟨key,call,actor,i,.acquiring 0 0,0,[]⟩] }
      have hask : asked.requests[w.requests.length]? = some ⟨key,call,actor,i,.acquiring 0 0,0,[]⟩ := hlas
      exact ensureLease_start hask rfl rfl hloo hfou hidl' hhum' hfre'

end Heals

/- How many steps a request has before it at most, its promise's included. -/
def remaining (w : Compatibility) (r : Request) : ℕ :=
  match r.phase with
  | .plain | .working .. | .ended .. => 0
  | .rejected attempt .. => 7*(1 - attempt)+1
  | .queued attempt .. => 7*(1 - attempt)+2
  | .holding attempt .. => 7*(1 - attempt)+3
  | .acquiring attempt a =>
    7*(1 - attempt)+match (w.acquisitions[a]?).map Acquisition.stage with
      | some .requested => 6
      | some .stored => 5
      | _ => 4
  | .releasing .. => 7

/- Every step of the request `c` from here is one less. -/
def Nears (c : ℕ) (w : Compatibility) (r : Request) (w' : Compatibility) : Prop :=
  ∀ r', w'.requests[c]? = some r' → remaining w' r'<remaining w r

section Progress
variable {c n : ℕ} {free : Prop} {w w' : Compatibility} {r : Request}

theorem nears_modify {manager : LeaseManager} {f : Request → Request} {uses : List (String × LeaseProof)}
    (hr : w.requests[c]? = some r)
    (hles : remaining w (f r)<remaining w r) :
    Nears c w r (Compatibility.modifyRequest c f { w with manager := manager, uses := uses }) := by
  intro r' hr'
  obtain rfl := Option.some.inj ((getElem?_modify_self hr).symm.trans hr')
  exact hles

theorem nears_second {v : Compatibility} (hv : Books v) (hr : v.requests[c]? = some r) (hmor : 6<remaining w r)
    (key : String) (actor : CompatibilityActor) (draw : Draw) : Nears c w r (v.ensureLease c 1 key actor draw) := by
  obtain ⟨phase,v',heq,-,-,-,hreq,hpha⟩ := ensureLease_spec hv c 1 key actor draw
  rw [heq]
  intro r' hr'
  have hmod : (v'.requests.modify c fun r => { r with phase := phase })[c]? = some { r with phase := phase } := by
    rw [hreq]
    exact getElem?_modify_self hr
  obtain rfl := Option.some.inj (hmod.symm.trans hr')
  refine Nat.lt_of_le_of_lt ?_ hmor
  cases hpha with
  | limit => exact Nat.zero_le 6
  | holding => exact (by decide : 3≤6)
  | acquiring =>
    simp only [remaining]
    split <;> omega

theorem go_nears (hw : Sound w) (hr : w.requests[c]? = some r) {refusal : Option QubiclError}
    (hste : w.go c refusal draw=some w') : Nears c w r w' := by
  unfold Compatibility.go at hste
  rw [hr] at hste
  dsimp only at hste
  split at hste
  swap
  · cases hste
  next attempt proof hpha =>
    have hrem : remaining w r=7*(1 - attempt)+3 := by
      unfold remaining
      rw [hpha]
    split at hste
    next hcal =>
      cases hste
      unfold Compatibility.invoke
      split
      next manager _ _ =>
        refine nears_modify hr ?_
        rw [hrem]
        exact Nat.succ_pos _
      next manager error _ =>
        dsimp only
        split
        · refine nears_modify hr ?_
          rw [hrem]
          exact Nat.succ_pos _
        next haga =>
          have hfir : attempt=0 := by
            have := (not_or.1 haga).2
            omega
          have hmor : 6<remaining w r := by
            rw [hrem,hfir]
            decide
          have hown:=(hw.request hr).backed
          rw [hpha] at hown
          have husd : ∀ use ∈ (r.key,proof)::w.uses, Owned w.acquisitions use.1 use.2 := by
            intro use huse
            rcases mem_cons.1 huse with rfl | hold
            · exact hown
            · exact hw.books.used use hold
          have hboo : Books { w with uses := (r.key,proof)::w.uses, manager := manager } :=
            ⟨hw.books.mapped,hw.books.remembered,hw.books.pending,hw.books.acquired,husd⟩
          split
          · exact nears_second (hboo.forget r.state) hr hmor _ _ _
          · exact nears_second hboo hr hmor _ _ _
    next call hcal =>
      split at hste
      · cases hste
      · cases hste
        have hsin:=((hw.request hr).tool call hcal).1
        obtain ⟨manager,f,hdis,hf⟩ := dispatch_cases { w with uses := (r.key,proof)::w.uses } c attempt proof
          refusal hsin
        rw [hdis]
        refine nears_modify hr ?_
        rw [hrem]
        have haft:=hf r
        generalize f r=r' at haft
        cases haft with
        | rejected error =>
          simp only [remaining]
          omega
        | queued stage =>
          simp only [remaining]
          omega
        | working => exact Nat.succ_pos _

theorem turn_nears (hr : w.requests[c]? = some r) (hste : w.turn c=some w') : Nears c w r w' := by
  unfold Compatibility.turn at hste
  split at hste
  swap
  · cases hste
  next attempt proof stage rest hpha =>
    rw [hr,map_some,Option.some.injEq] at hpha
    have hrem : remaining w r=7*(1 - attempt)+2 := by
      unfold remaining
      rw [hpha]
    split at hste
    · cases hste
      refine nears_modify hr ?_
      rw [hrem]
      simp only [remaining]
      omega
    · cases hste
      refine nears_modify hr ?_
      rw [hrem]
      exact Nat.succ_pos _

theorem caught_nears (hw : Sound w) (hr : w.requests[c]? = some r) (hste : w.caught c draw=some w') :
    Nears c w r w' := by
  unfold Compatibility.caught at hste
  rw [hr] at hste
  dsimp only at hste
  split at hste
  swap
  · cases hste
  next attempt proof error hpha =>
    have hrem : remaining w r=7*(1 - attempt)+1 := by
      unfold remaining
      rw [hpha]
    split at hste
    · cases hste
      refine nears_modify hr ?_
      rw [hrem]
      exact Nat.succ_pos _
    next haga =>
      have hfir : attempt=0 := by
        have := (not_or.1 haga).2
        omega
      have hmor : 7<remaining w r := by
        rw [hrem,hfir]
        decide
      split at hste
      · split at hste
        · cases hste
          intro r' hr'
          obtain rfl := Option.some.inj ((getElem?_modify_self hr).symm.trans hr')
          exact hmor
        · cases hste
          exact nears_second (hw.books.forget r.state) hr (by omega) _ _ _
      · cases hste
        exact nears_second hw.books hr (by omega) _ _ _

theorem joined_nears (hr : w.requests[c]? = some r) (hste : w.joined c=some w') : Nears c w r w' := by
  unfold Compatibility.joined at hste
  split at hste
  swap
  · cases hste
  next attempt a hpha =>
    rw [hr,map_some,Option.some.injEq] at hpha
    have hrem : 7*(1 - attempt)+4≤remaining w r := by
      unfold remaining
      rw [hpha]
      dsimp only
      split <;> omega
    split at hste
    swap
    · cases hste
    · split at hste
      · cases hste
        refine nears_modify hr (Nat.lt_of_lt_of_le ?_ hrem)
        simp only [remaining]
        omega
      · cases hste
        exact nears_modify hr (Nat.lt_of_lt_of_le (Nat.succ_pos _) hrem)
      · cases hste

theorem promise_nears {attempt a : ℕ} {acquisition : Acquisition} {stage : AcquisitionStage} (hr : w.requests[c]? = some r)
    (hpha : r.phase=.acquiring attempt a) (ha : w.acquisitions[a]? = some acquisition)
    (hreq : w'.requests=w.requests)
    (hacq : w'.acquisitions=w.acquisitions.modify a fun acquisition => { acquisition with stage := stage })
    (hnex : (acquisition.stage=.requested ∧ stage=.stored) ∨ (acquisition.stage=.stored ∧ stage=.finished)) :
    Nears c w r w' := by
  intro r' hr'
  rw [hreq] at hr'
  obtain rfl := Option.some.inj (hr.symm.trans hr')
  have hmod : w'.acquisitions[a]? = some { acquisition with stage := stage } := by
    rw [hacq]
    exact getElem?_modify_self ha
  unfold remaining
  rw [hpha]
  dsimp only
  rw [hmod,ha]
  rcases hnex with ⟨hbef,rfl⟩ | ⟨hbef,rfl⟩
  · rw [map_some,map_some,hbef]
    exact Nat.add_lt_add_left (by decide : 5<6) _
  · rw [map_some,map_some,hbef]
    exact Nat.add_lt_add_left (by decide : 4<5) _

end Progress

section Works
variable {c n : ℕ} {free : Prop} {w w' : Compatibility} {r : Request} {key : String}

/-- The request can go on, with nobody else doing anything, until it works with a proof of its own. -/
def Works (n c : ℕ) (key : String) (w : Compatibility) : Prop :=
  ∃ actions w' r, compatibilitySystem.RunWhere (fun w action => Alone c w action ∧ Unrefused action) w actions w' ∧
    w'.requests[c]? = some r ∧ r.Begun ∧ FreshUse n key w'

def plainDraw : Draw := ⟨⟨"",by simp⟩,none,by simp⟩

/-- Where the lease was free, a request that has not begun has a next step of its own. -/
theorem next_step (hw : Sound w) (h : OnCourse free n c w r) (hfre : free) (hbeg : ¬r.Begun) :
    ∃ action w', Alone c w action ∧ Unrefused action ∧ compatibilitySystem.step w action=some w' ∧ Nears c w r w' := by
  obtain ⟨hpla,hcou⟩ := h.course.resolve_left fun hdon => hbeg hdon.1
  cases hpha : r.phase with
  | plain =>
    rw [hpha] at hcou
    cases hcou
  | working attempt proof rest =>
    rw [hpha] at hcou
    cases hcou
  | releasing result =>
    rw [hpha] at hcou
    cases hcou with
    | releasing found forgotten idle taken => exact absurd hfre taken
  | ended outcome =>
    rw [hpha] at hcou
    cases hcou with
    | ended fresh taken => exact absurd hfre taken
  | acquiring attempt a =>
    rw [hpha] at hcou
    cases hcou with
    | @acquiring attempt a acquisition state promise new own place found waits kept granted refused =>
      cases hsta : acquisition.stage with
      | requested =>
        cases hres : acquisition.result with
        | error error => exact absurd hfre (refused error hres).2
        | ok proof =>
          obtain ⟨w',hste,hreq,hacq⟩ : ∃ w', w.storeProof a=some w' ∧ w'.requests=w.requests ∧
              w'.acquisitions=w.acquisitions.modify a fun acquisition => { acquisition with stage := .stored } := by
            unfold Compatibility.storeProof
            rw [promise]
            dsimp only
            rw [hsta]
            dsimp only
            rw [hres]
            exact ⟨_,rfl,rfl,rfl⟩
          exact ⟨.storeProof a,w',trivial,trivial,hste,
            promise_nears h.request hpha promise hreq hacq (.inl ⟨hsta,rfl⟩)⟩
      | stored =>
        obtain ⟨w',hste,hreq,hacq⟩ : ∃ w', w.finishAcquiring a=some w' ∧ w'.requests=w.requests ∧
            w'.acquisitions=w.acquisitions.modify a fun acquisition => { acquisition with stage := .finished } := by
          unfold Compatibility.finishAcquiring
          rw [promise]
          dsimp only
          rw [hsta]
          exact ⟨_,rfl,rfl,rfl⟩
        exact ⟨.finishAcquiring a,w',trivial,trivial,hste,
          promise_nears h.request hpha promise hreq hacq (.inr ⟨hsta,rfl⟩)⟩
      | finished =>
        cases hres : acquisition.result with
        | error error => exact absurd hfre (refused error hres).2
        | ok proof =>
          have hste : w.joined c=some (w.setPhase c (.holding attempt proof)) := by
            unfold Compatibility.joined
            rw [h.request,map_some,hpha]
            dsimp only
            rw [promise]
            dsimp only
            rw [hsta,hres]
          exact ⟨.joined c,_,rfl,trivial,hste,joined_nears h.request hste⟩
  | holding attempt proof =>
    obtain ⟨w',hste⟩ : ∃ w', w.go c none plainDraw=some w' := by
      unfold Compatibility.go
      rw [h.request]
      dsimp only
      rw [hpha]
      dsimp only
      split
      · exact ⟨_,rfl⟩
      · exact ⟨_,rfl⟩
    exact ⟨.go c none plainDraw,w',⟨rfl,fun _ hmem => by cases hmem⟩,⟨rfl,rfl⟩,hste,go_nears hw h.request hste⟩
  | queued attempt proof stage rest =>
    obtain ⟨w',hste⟩ : ∃ w', w.turn c=some w' := by
      unfold Compatibility.turn
      rw [h.request,map_some,hpha]
      dsimp only
      generalize (if stage=.desktop then verifyInteractive proof w.manager else verify proof false w.manager)=answer
      obtain ⟨manager,result⟩ := answer
      cases result with
      | error error => exact ⟨_,rfl⟩
      | ok owner => exact ⟨_,rfl⟩
    exact ⟨.turn c,w',rfl,trivial,hste,turn_nears h.request hste⟩
  | rejected attempt proof error =>
    obtain ⟨w',hste⟩ : ∃ w', w.caught c plainDraw=some w' := by
      unfold Compatibility.caught
      rw [h.request]
      dsimp only
      rw [hpha]
      dsimp only
      split
      · exact ⟨_,rfl⟩
      · split
        · split
          · exact ⟨_,rfl⟩
          · exact ⟨_,rfl⟩
        · exact ⟨_,rfl⟩
    exact ⟨.caught c plainDraw,w',rfl,rfl,hste,caught_nears hw h.request hste⟩

/-- The number of its remaining steps decreases until it works. -/
theorem works_of_onCourse (hw : Sound w) (h : OnCourse free n c w r) (hfre : free) (hkey : r.key=key) :
    Works n c key w := by
  generalize hm : remaining w r=m
  induction m using Nat.strongRecOn generalizing w r with
  | ind m ih =>
    by_cases hbeg : r.Begun
    · have huse : FreshUse n r.key w := by
        rcases h.course with hdon | ⟨-,hcou⟩
        · exact hdon.2 hfre
        · exfalso
          rcases (hw.request h.request).begun_phase hbeg with hpha | ⟨attempt,proof,rest,hpha⟩ | ⟨outcome,hpha⟩
          · rw [hpha] at hcou
            cases hcou
          · rw [hpha] at hcou
            cases hcou
          · rw [hpha] at hcou
            cases hcou with
            | ended fresh taken => exact taken hfre
      exact ⟨[],w,r,.refl w,h.request,hbeg,hkey ▸ huse⟩
    · obtain ⟨action,w',halo,hpla,hste,hnea⟩ := next_step hw h hfre hbeg
      obtain ⟨r',h',hkey'⟩ := step_onCourse h hw halo (fun _ => hpla) hste
      have hw':=step_sound hw halo.checksFirst hste
      obtain ⟨actions,w'',r'',hrun,hr'',hdon,huse⟩ :=
        ih _ (hm ▸ hnea r' h'.request) hw' h' (hkey'.trans hkey) rfl
      exact ⟨action::actions,w'',r'',(TransitionSystem.RunWhere.single ⟨halo,hpla⟩ hste).trans hrun,hr'',hdon,
        huse⟩

end Works

/-- No action is invoked twice, no tool is dispatched after a dispatch that has begun, and no proof is another's. -/
structure DispatchesOnce (w : Compatibility) : Prop where
  invoked : ∀ r ∈ w.requests, r.invoked≤1
  dispatches : ∀ r ∈ w.requests, r.dispatches.length≤2 ∧ ∀ begun ∈ r.dispatches.drop 1, begun=false
  own : ∀ use ∈ w.uses, Owned w.acquisitions use.1 use.2

/-- A request begins while no human is in control and no acquisition of its credential is under way. With nobody interfering,
it fails with `stale_lease` only if its work has begun, and from a free lease it comes to its work with a fresh proof. -/
def Heals (w : Compatibility) : Prop :=
  ∀ (key : String) (call : Option ToolCall) (actor : CompatibilityActor) (draw : Draw),
    (∀ call' ∈ call, call'.needsLease=true ∧ call'.worksBeforeTurn w.browserCapable=false) →
    w.manager.human=false → Idle key w →
      (∀ actions w' r error, compatibilitySystem.RunWhere (Alone w.requests.length) (w.start key call actor draw) actions w' →
        w'.requests[w.requests.length]? = some r → r.phase=.ended (.failed error) → error.code = "stale_lease" → r.Begun) ∧
      (Free w.manager → (w.currentLeaseState key).isSome=true → draw.refusal=none →
        ∀ actions w', compatibilitySystem.RunWhere (fun v action => Alone w.requests.length v action ∧ Unrefused action)
          (w.start key call actor draw) actions w' → Works w.acquisitions.length w.requests.length key w')

section Results
variable {w w₀ : Compatibility} {actions : List CompatibilityAction}

theorem Sound.dispatchesOnce (h : Sound w) : DispatchesOnce w := by
  refine ⟨fun r hr => ?_,fun r hr => ?_,h.books.used⟩
  · cases hcal : r.call with
    | none => exact ((h.requests r hr).action hcal).2.le_one
    | some call =>
      rw [((h.requests r hr).tool call hcal).2.1]
      exact Nat.zero_le 1
  · cases hcal : r.call with
    | none =>
      rw [((h.requests r hr).action hcal).1]
      exact ⟨Nat.zero_le 2,fun begun hmem => by cases hmem⟩
    | some call => exact ((h.requests r hr).tool call hcal).2.2.once

theorem Sound.heals (h : Sound w) : Heals w := by
  intro key call actor draw hcal hhum hidl
  have hsta:=start_sound h key call actor draw fun call' hmem => (hcal call' hmem).2
  refine ⟨?_,?_⟩
  · intro actions w' r error hrun hr hpha hcod
    have hfir : ∃ r, OnCourse False w.acquisitions.length w.requests.length (w.start key call actor draw) r ∧ r.key=key :=
      start_onCourse h actor (fun call' hmem => (hcal call' hmem).1) hhum hidl fun hfal => hfal.elim
    obtain ⟨r₀,hr₀,-⟩ := hfir
    have hinv : Sound w' ∧ ∃ r, OnCourse False w.acquisitions.length w.requests.length w' r := by
      have hini : Sound (w.start key call actor draw) ∧
          ∃ r, OnCourse False w.acquisitions.length w.requests.length (w.start key call actor draw) r := ⟨hsta,r₀,hr₀⟩
      refine TransitionSystem.RunWhere.preserves
        (P := fun v => Sound v ∧ ∃ r, OnCourse False w.acquisitions.length w.requests.length v r) ?_ hrun hini
      intro v action v' hv halo hste
      obtain ⟨hv,r,hr⟩ := hv
      obtain ⟨r',hr',-⟩ := step_onCourse hr hv halo (fun hfal => hfal.elim) hste
      exact ⟨step_sound hv halo.checksFirst hste,r',hr'⟩
    obtain ⟨-,r',hr'⟩ := hinv
    obtain rfl := Option.some.inj (hr.symm.trans hr'.request)
    rcases hr'.course with hdon | ⟨-,hcou⟩
    · exact hdon.1
    · rw [hpha] at hcou
      cases hcou with
      | ended fresh taken => exact absurd hcod (fresh error rfl)
  · intro hfre hroo hpla actions w' hrun
    have hfir : ∃ r, OnCourse True w.acquisitions.length w.requests.length (w.start key call actor draw) r ∧ r.key=key :=
      start_onCourse h actor (fun call' hmem => (hcal call' hmem).1) hhum hidl fun _ => ⟨hfre,hroo,hpla⟩
    obtain ⟨r₀,hr₀,hke₀⟩ := hfir
    have hinv : Sound w' ∧ ∃ r, OnCourse True w.acquisitions.length w.requests.length w' r ∧ r.key=key := by
      have hini : Sound (w.start key call actor draw) ∧
          ∃ r, OnCourse True w.acquisitions.length w.requests.length (w.start key call actor draw) r ∧ r.key=key :=
        ⟨hsta,r₀,hr₀,hke₀⟩
      refine TransitionSystem.RunWhere.preserves
        (P := fun v => Sound v ∧ ∃ r, OnCourse True w.acquisitions.length w.requests.length v r ∧ r.key=key) ?_ hrun hini
      intro v action v' hv hnex hste
      obtain ⟨hv,r,hr,hkey⟩ := hv
      obtain ⟨r',hr',hkey'⟩ := step_onCourse hr hv hnex.1 (fun _ => hnex.2) hste
      exact ⟨step_sound hv hnex.1.checksFirst hste,r',hr',hkey'.trans hkey⟩
    obtain ⟨hw',r',hr',hkey'⟩ := hinv
    exact works_of_onCourse hw' hr' trivial hkey'

end Results

def emptyCompatibility : Compatibility := ⟨create 0 ⟨"epoch",by simp⟩,true,[],[],[],[],[]⟩

theorem emptyCompatibility_initial : compatibilitySystem.initial emptyCompatibility := ⟨0,_,true,rfl⟩

def exampleActor : CompatibilityActor := ⟨⟨.openTerminal,"Client; Open Terminal connection"⟩,by rfl⟩

def exampleDraw (again : Bool) : Draw := ⟨⟨if again then "second" else "first",by split <;> simp⟩,none,by simp⟩

def startedOnce : Compatibility :=
  emptyCompatibility.start "client" (some ⟨"run_command",false,""⟩) exampleActor (exampleDraw false)

/- A page is extracted by a fetch, a human takes over, and the browser's turn finds the lease lost. -/
def extractTwice : List CompatibilityAction :=
  [.start "client" (some ⟨"web_extract",false,"auto"⟩) exampleActor (exampleDraw false),.storeProof 0,.finishAcquiring 0,
    .joined 0,.go 0 none (exampleDraw false),.lease .takeHumanControl,.lease (.startRevocation 0),
    .lease (.settleHandler 0 (.resolved 0)),.lease (.observeRevocation 0 (exampleDraw true).id),.advance 0,.turn 0,
    .caught 0 (exampleDraw true),.storeProof 1,.finishAcquiring 1,.joined 0,.go 0 none (exampleDraw true)]

end Qubicl.Control.OpenTerminal
