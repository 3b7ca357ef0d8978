import Qubicl.Gateway.Ownership

/-!
# The input of a controlling viewer is fenced

A viewer that is piped to the controlling port of its computer, and not paused, belongs
to the controlling session, no transition runs, and the computer is in human control:
as long as no release that the computer carried out stays unreported.
-/

namespace Qubicl.Viewing
open Foundation Gateway List

variable {g g' : Gateway}

/-- The socket counts as one that keeps its session controlling. -/
def ViewerSocket.controls (t : ViewerSocket) : Prop := t.controlling=true ∧ t.destroyed=false

/-- The socket's input goes to the controlling port unless it is paused. -/
def ViewerSocket.piped (t : ViewerSocket) : Prop := t.phase=.ready ∧ t.controls

/- The transitions in which the computer may have left human control while a session
still is controlling, and those in which it certainly is in human control. -/
def Running.lowered : Running → Bool
  | .proxying _ .release true => true
  | .releasing _ true => true
  | .restoring _ _ false => true
  | _ => false

def Running.raised : Running → Bool
  | .proxying _ .take true => true
  | .restoring _ _ true => true
  | _ => false

structure Fenced (g : Gateway) : Prop where
  owned : ∀ t ∈ g.viewerSockets, t.controls →
    ∃ s ∈ g.sessions, s.key=t.key ∧ s.id=t.id ∧ s.controlling=true
  paused : ∀ t ∈ g.viewerSockets, t.piped → (g.running t.id).isSome → t.paused=true
  human : ∀ s ∈ g.sessions, s.controlling=true →
    g.human s.id=true ∨ ∃ running, g.running s.id=some running ∧ running.lowered=true
  raised : ∀ id running, g.running id=some running → running.raised=true → g.human id=true

/-- The computer is in human control where a session of it is controlling. -/
def Controlled (id : ℕ) (g : Gateway) : Prop :=
  ∀ s ∈ g.sessions, s.id=id → s.controlling=true → g.human id=true

variable {id : ℕ}

theorem Fenced.controlled (h : Fenced g) (hrun : ∀ running, g.running id=some running → running.lowered=false) :
    Controlled id g := by
  intro s hs hid hcon
  rcases h.human s hs hcon with hhum | ⟨running,hsom,hlow⟩
  · rw [← hid]
    exact hhum
  · rw [hid] at hsom
    rw [hrun running hsom] at hlow
    cases hlow

/-- The viewers that control the computer are paused. -/
def Paused (id : ℕ) (g : Gateway) : Prop :=
  ∀ t ∈ g.viewerSockets, t.piped → t.id=id → t.paused=true

theorem Paused.destroySockets (h : Paused id g) (p : ViewerSocket → Bool) : Paused id (g.destroySockets p) := by
  intro t ht hpip hid
  obtain ⟨old,hold,rfl⟩ := mem_map.1 ht
  split at hpip
  next => cases hpip.2.2
  next hp =>
    rw [if_neg hp] at hid ⊢
    exact h old hold hpip hid

theorem Fenced.running_paused (h : Fenced g) {running : Running} (hrun : g.running id=some running) :
    Paused id g := by
  intro t ht hpip hid
  apply h.paused t ht hpip
  rw [hid,hrun]
  rfl

/- `serializeControlTransition` pauses every controlling viewer of the computer first. -/
theorem Fenced.pauseControlling_paused (h : Fenced g) (id : ℕ) : Paused id (g.pauseControlling id) := by
  intro t ht hpip hid
  obtain ⟨old,hold,rfl⟩ := mem_map.1 ht
  split at hpip
  next hp => rw [if_pos hp]
  next hp =>
    rw [if_neg hp] at hid
    obtain ⟨s,hs,hkey,hid',_⟩ := h.owned old hold hpip.2
    exfalso
    apply hp
    rw [hpip.2.1,Bool.true_and]
    exact any_eq_true.2 ⟨s,hs,by simp [hkey,hid',hid]⟩

namespace Fenced

theorem mapSockets (h : Fenced g) {f : ViewerSocket → ViewerSocket}
    (hf : ∀ t, (f t).controls → t.controls ∧ (f t).key=t.key ∧ (f t).id=t.id)
    (hpau : ∀ t, (f t).piped → t.piped ∧ (t.paused=true → (f t).paused=true)) :
    Fenced { g with viewerSockets := g.viewerSockets.map f } :=
  { h with
    owned := fun t ht hcon => by
      obtain ⟨old,hold,rfl⟩ := mem_map.1 ht
      obtain ⟨hwas,hkey,hid⟩ := hf old hcon
      rw [hkey,hid]
      exact h.owned old hold hwas
    paused := fun t ht hpip hrun => by
      obtain ⟨old,hold,rfl⟩ := mem_map.1 ht
      obtain ⟨hwas,hkep⟩ := hpau old hpip
      obtain ⟨_,_,hid⟩ := hf old hpip.2
      rw [hid] at hrun
      exact hkep (h.paused old hold hwas hrun) }

theorem destroySockets (h : Fenced g) (p : ViewerSocket → Bool) : Fenced (g.destroySockets p) := by
  apply h.mapSockets
  · intro t hcon
    split at hcon
    next => cases hcon.2
    next hp =>
      rw [if_neg hp]
      exact ⟨hcon,rfl,rfl⟩
  · intro t hpip
    split at hpip
    next => cases hpip.2.2
    next hp =>
      rw [if_neg hp]
      exact ⟨hpip,fun hpau => hpau⟩

theorem pauseControlling (h : Fenced g) (id : ℕ) : Fenced (g.pauseControlling id) := by
  apply h.mapSockets
  · intro t hcon
    split at hcon
    next hp =>
      rw [if_pos hp]
      exact ⟨hcon,rfl,rfl⟩
    next hp =>
      rw [if_neg hp]
      exact ⟨hcon,rfl,rfl⟩
  · intro t hpip
    split at hpip
    next hp =>
      rw [if_pos hp]
      exact ⟨hpip,fun _ => rfl⟩
    next hp =>
      rw [if_neg hp]
      exact ⟨hpip,fun hpau => hpau⟩

theorem pruneExpired (h : Fenced g) : Fenced g.pruneExpired := by
  have hclo:=h.destroySockets fun t => g.sessions.any fun s => s.key=t.key && g.stale s
  exact
    { owned := fun t ht hcon => by
        obtain ⟨s,hs,hkey,hid,hcog⟩ := hclo.owned t ht hcon
        refine ⟨s,mem_filter.2 ⟨hs,?_⟩,hkey,hid,hcog⟩
        obtain ⟨old,hold,heq⟩ := mem_map.1 ht
        cases hsta : g.stale s with
        | false => simp [Gateway.dropped,hsta]
        | true =>
          have hkey' : s.key=old.key := by
            rw [hkey,← heq]
            split <;> rfl
          have hany : (g.sessions.any fun s => s.key=old.key && g.stale s)=true :=
            any_eq_true.2 ⟨s,hs,by simp [hkey',hsta]⟩
          rw [if_pos hany] at heq
          rw [← heq] at hcon
          cases hcon.2
      paused := hclo.paused
      human := fun s hs => h.human s (mem_filter.1 hs).1
      raised := h.raised }

theorem validViewSession (h : Fenced g) (key id : ℕ) : Fenced (g.validViewSession key id).1 := h.pruneExpired

/- Control is given to a session only while the computer is in human control. -/
variable {id : ℕ}

theorem setControllingSession (h : Fenced g) {controller : Option ℕ} (hhum : controller≠none → g.human id=true) :
    Fenced (g.setControllingSession id controller) := by
  have hclo:=h.destroySockets fun t => t.controlling && g.sessions.any fun s =>
    s.key=t.key && s.id=id && s.controlling && !(controller=some s.key)
  exact
    { owned := fun t ht hcon => by
        obtain ⟨s,hs,hkey,hid,hcog⟩ := hclo.owned t ht hcon
        refine ⟨_,mem_map_of_mem hs,?_⟩
        split
        next heq =>
          refine ⟨hkey,hid,?_⟩
          obtain ⟨old,hold,hsam⟩ := mem_map.1 ht
          by_cases hkep : controller=some s.key
          · simpa using hkep
          · exfalso
            have hkey' : s.key=old.key := by
              rw [hkey,← hsam]
              split <;> rfl
            have hold_controlling : old.controlling=true := by
              have hc:=hcon.1
              rw [← hsam] at hc
              split at hc
              · exact hc
              · exact hc
            have hany : (old.controlling && g.sessions.any fun s =>
                s.key=old.key && s.id=id && s.controlling && !(controller=some s.key))=true := by
              rw [hold_controlling,Bool.true_and]
              rw [hkey'] at hkep
              exact any_eq_true.2 ⟨s,hs,by simp [hkey',heq,hcog,hkep]⟩
            rw [if_pos hany] at hsam
            rw [← hsam] at hcon
            cases hcon.2
        next => exact ⟨hkey,hid,hcog⟩
      paused := hclo.paused
      human := fun s hs hcog => by
        obtain ⟨old,hold,_,hid,hset,hsam⟩ := WellFormed.mem_setControllingSession hs
        by_cases heq : s.id=id
        · left
          rw [heq]
          apply hhum
          rw [(hset heq).1 hcog]
          simp
        · rw [hid]
          exact h.human old hold (hsam heq ▸ hcog)
      raised := h.raised }

theorem finish (hwell : WellFormed g) (h : Fenced g) (hcod : Controlled id g) :
    Fenced (g.finish id) where
  owned := fun t ht hcon => by
    obtain ⟨old,hold,rfl⟩ := mem_map.1 ht
    split at hcon
    next hp =>
      rw [if_pos hp]
      exact h.owned old hold hcon
    next hp =>
      rw [if_neg hp]
      exact h.owned old hold hcon
  paused := fun t ht hpip hrun => by
    obtain ⟨old,hold,rfl⟩ := mem_map.1 ht
    have hsom : (Function.update g.running id none old.id).isSome=true := by
      split at hrun
      · exact hrun
      · exact hrun
    have hwas : old.piped := by
      split at hpip
      · exact hpip
      · exact hpip
    have hne : old.id≠id := by
      intro heq
      rw [heq,Function.update_self] at hsom
      cases hsom
    rw [Function.update_of_ne hne] at hsom
    have hpau:=h.paused old hold hwas hsom
    split
    next hp =>
      simp only [Bool.and_eq_true] at hp
      obtain ⟨s,hs,hmat⟩ := any_eq_true.1 hp.2
      simp only [Bool.and_eq_true,decide_eq_true_eq] at hmat
      obtain ⟨s',hs',hkey,hid,_⟩ := h.owned old hold hwas.2
      rw [hwell.session_unique hs' hs (hkey.trans hmat.1.1.symm)] at hid
      exact absurd (hid.symm.trans hmat.1.2) hne
    next => exact hpau
  human := fun s hs hcog => by
    by_cases heq : s.id=id
    · left
      rw [heq]
      exact hcod s hs heq hcog
    · rcases h.human s hs hcog with hhum | ⟨running,hsom,hlow⟩
      · exact Or.inl hhum
      · right
        refine ⟨running,?_,hlow⟩
        show Function.update g.running id none s.id=some running
        rw [Function.update_of_ne heq]
        exact hsom
  raised := fun id' running hsom => by
    have hsom' : Function.update g.running id none id'=some running := hsom
    by_cases heq : id'=id
    · rw [heq,Function.update_self] at hsom'
      cases hsom'
    · rw [Function.update_of_ne heq] at hsom'
      exact h.raised id' running hsom'

theorem setRunning (h : Fenced g) {running : Running} (hpau : Paused id g)
    (hhum : running.lowered=true ∨ Controlled id g) (hrai : running.raised=true → g.human id=true) :
    Fenced (g.setRunning id (some running)) :=
  { h with
    paused := fun t ht hpip hsom => by
      by_cases heq : t.id=id
      · exact hpau t ht hpip heq
      · have hsom' : (Function.update g.running id (some running) t.id).isSome=true := hsom
        rw [Function.update_of_ne heq] at hsom'
        exact h.paused t ht hpip hsom'
    human := fun s hs hcon => by
      show _ ∨ ∃ r, Function.update g.running id (some running) s.id=some r ∧ _
      by_cases heq : s.id=id
      · rw [heq,Function.update_self]
        rcases hhum with hlow | hcontrolled
        · exact Or.inr ⟨running,rfl,hlow⟩
        · exact Or.inl (hcontrolled s hs heq hcon)
      · rw [Function.update_of_ne heq]
        exact h.human s hs hcon
    raised := fun id' r hsom hr => by
      have hsom' : Function.update g.running id (some running) id'=some r := hsom
      by_cases heq : id'=id
      · rw [heq,Function.update_self] at hsom'
        cases hsom'
        rw [heq]
        exact hrai hr
      · rw [Function.update_of_ne heq] at hsom'
        exact h.raised id' r hsom' hr }

theorem relinquish (hwell : WellFormed g) (h : Fenced g) (id : ℕ) :
    Fenced ((g.setControllingSession id none).finish id) := by
  have hset : Fenced (g.setControllingSession id none) := h.setControllingSession fun hne => absurd rfl hne
  have hwell' : WellFormed (g.setControllingSession id none) :=
    hwell.setControllingSession id none fun _ _ _ _ => Or.inl rfl
  apply hset.finish hwell'
  intro s hs hid hcon
  obtain ⟨_,_,_,_,hnon,_⟩ := WellFormed.mem_setControllingSession hs
  have := (hnon hid).1 hcon
  cases this

theorem timers (h : Fenced g) (timers : List AbandonedTimer) : Fenced { g with abandonedControlTimers := timers } :=
  { h with }

theorem arm (h : Fenced g) (key id : ℕ) : Fenced (g.armAbandonedControlRelease key id) := by
  obtain ⟨timers,heq,_⟩ := armAbandonedControlRelease_cases key id g
  rw [heq]
  exact h.timers timers

theorem armed (hwell : WellFormed g) (h : Fenced g) {key : ℕ} (hcon : Controlled id g) :
    Fenced ((g.armAbandonedControlRelease key id).finish id) := by
  obtain ⟨timers,heq,_⟩ := armAbandonedControlRelease_cases key id g
  rw [heq]
  have harm:=h.timers timers
  have hwell' : Fenced (Gateway.finish id { g with abandonedControlTimers := timers }) := by
    have hfin:=h.finish hwell hcon
    exact { hfin with }
  exact hwell'

theorem operate (hwell : WellFormed g) (h : Fenced g) (hrun : g.running id=none) (hpau : Paused id g) (refused : Bool)
    (operation : Operation) : Fenced (g.operate id refused operation) := by
  have hcon : Controlled id g := h.controlled fun _ hsom => by rw [hrun] at hsom; cases hsom
  unfold Gateway.operate
  split
  next key action =>
    split
    · exact h.finish hwell hcon
    · have hval:=h.validViewSession key id
      have hwell':=hwell.validViewSession key id
      have hcon' : Controlled id (g.validViewSession key id).1 :=
        hval.controlled fun _ hsom => by
          have hsom' : g.running id=some _ := hsom
          rw [hrun] at hsom'
          cases hsom'
      have hpau' : Paused id (g.validViewSession key id).1 := hpau.destroySockets _
      dsimp only
      split
      next => exact hval.finish hwell' hcon'
      next s hs =>
        split
        next => exact hval.finish hwell' hcon'
        next =>
          split
          next => exact hval.finish hwell' hcon'
          next =>
            apply hval.setRunning hpau' (Or.inr hcon')
            intro hrai
            cases action with
            | take => cases hrai
            | release => cases hrai
  next =>
    split
    · exact h.finish hwell hcon
    · apply h.setRunning hpau (Or.inr hcon)
      intro hrai
      cases hrai
  next key =>
    split
    next => exact h.finish hwell hcon
    next s hfou =>
      split
      next => exact h.finish hwell hcon
      next =>
        split
        next => exact h.relinquish hwell id
        next =>
          apply h.setRunning hpau (Or.inr hcon)
          intro hrai
          cases hrai

theorem beginTransition (hwell : WellFormed g) (h : Fenced g) {refused : Bool}
    (hste : g.beginTransition id refused=some g') : Fenced g' := by
  unfold Gateway.beginTransition at hste
  split at hste
  next operation rest hrun hque =>
    cases hste
    have hres : Fenced { g with queue := Function.update g.queue id rest } := { h with }
    have hwell' : WellFormed { g with queue := Function.update g.queue id rest } := by
      apply hwell.setQueue
      intro key hkey
      left
      rw [hque]
      exact mem_cons_of_mem _ hkey
    exact (hres.pauseControlling id).operate (hwell'.pauseControlling id) hrun
      (hres.pauseControlling_paused id) refused operation
  next => cases hste

theorem taken (h : Fenced g) (id : ℕ) : Fenced (g.setHuman id .take) := by
  have hkee : ∀ id', g.human id'=true → (g.setHuman id .take).human id'=true := by
    intro id' hhum
    show Function.update g.human id true id'=true
    by_cases heq : id'=id
    · rw [heq,Function.update_self]
    · rw [Function.update_of_ne heq]
      exact hhum
  exact
    { h with
      human := fun s hs hcon => (h.human s hs hcon).imp (hkee s.id) fun hlow => hlow
      raised := fun id' running hsom hrai => hkee id' (h.raised id' running hsom hrai) }

/- The computer releases the control in a transition that accounts for it. -/
theorem released (h : Fenced g) {running : Running} (hpau : Paused id g) (hlow : running.lowered=true)
    (hrai : running.raised=false) : Fenced ((g.setHuman id .release).setRunning id (some running)) :=
  { owned := h.owned
    paused := fun t ht hpip hsom => by
      by_cases heq : t.id=id
      · exact hpau t ht hpip heq
      · have hsom' : (Function.update g.running id (some running) t.id).isSome=true := hsom
        rw [Function.update_of_ne heq] at hsom'
        exact h.paused t ht hpip hsom'
    human := fun s hs hcon => by
      show Function.update g.human id false s.id=true ∨
        ∃ r, Function.update g.running id (some running) s.id=some r ∧ _
      by_cases heq : s.id=id
      · rw [heq,Function.update_self,Function.update_self]
        exact Or.inr ⟨running,rfl,hlow⟩
      · rw [Function.update_of_ne heq,Function.update_of_ne heq]
        exact h.human s hs hcon
    raised := fun id' r hsom hr => by
      have hsom' : Function.update g.running id (some running) id'=some r := hsom
      show Function.update g.human id false id'=true
      by_cases heq : id'=id
      · rw [heq,Function.update_self] at hsom'
        cases hsom'
        rw [hrai] at hr
        cases hr
      · rw [Function.update_of_ne heq] at hsom' ⊢
        exact h.raised id' r hsom' hr }

theorem execute (h : Fenced g) (hste : g.execute id=some g') : Fenced g' := by
  unfold Gateway.execute at hste
  split at hste
  next key action hrun =>
    cases hste
    have hpau:=h.running_paused hrun
    cases action with
    | take =>
      have htak:=h.taken id
      apply htak.setRunning hpau
      · right
        intro _ _ _ _
        exact Function.update_self ..
      · intro _
        exact Function.update_self ..
    | release => exact h.released hpau rfl rfl
  next key hrun =>
    cases hste
    exact h.released (h.running_paused hrun) rfl rfl
  next key released hrun =>
    cases hste
    have htak:=h.taken id
    apply htak.setRunning (h.running_paused hrun)
    · right
      intro _ _ _ _
      exact Function.update_self ..
    · intro _
      exact Function.update_self ..
  next => cases hste

theorem giveUp (h : Fenced g) (id : ℕ) (action : HumanAction) (executed late : Bool) :
    Fenced (g.giveUp id action executed late) := by
  obtain ⟨requests,heq⟩ := giveUp_same id action executed late g
  rw [heq]
  exact { h with }

theorem succeed (h : Fenced g) (hste : g.succeed id=some g') : Fenced g' := by
  unfold Gateway.succeed at hste
  split at hste
  next key action hrun =>
    cases hste
    have hhum : (if action=.take then key else none)≠none → g.human id=true := by
      intro hne
      cases action with
      | take => exact h.raised id _ hrun rfl
      | release => exact absurd rfl hne
    have hset:=h.setControllingSession hhum
    apply hset.setRunning
    · exact (h.running_paused hrun).destroySockets _
    · right
      intro s hs hid hcon
      obtain ⟨_,_,_,_,hgiv,_⟩ := WellFormed.mem_setControllingSession hs
      apply hhum
      rw [(hgiv hid).1 hcon]
      simp
    · intro hrai
      cases hrai
  next => cases hste

end Fenced

/-- No session of the computer is controlling. -/
def Gateway.unowned (id : ℕ) (g : Gateway) : Bool := !g.sessions.any fun s => s.id=id && s.controlling

theorem controlled_of_unowned (h : g.unowned id=true) : Controlled id g := by
  intro s hs hid hcon
  exfalso
  have hnon : (g.sessions.any fun s => s.id=id && s.controlling)=false := by
    simpa [Gateway.unowned] using h
  have := any_eq_false.1 hnon s hs
  simp [hid,hcon] at this

/-- What the computer did is not hidden from its owner: a release that was carried out
does not end unsuccessfully, and one that the gateway gave up on is not carried out, while
a session is and stays controlling and nothing accounts for it. -/
def reported (g : Gateway) : GatewayAction → Bool
  | .settle id _ =>
    match g.running id with
    | some (.proxying _ .release true) => g.human id || g.unowned id
    | _ => true
  | .resolve id ok _ =>
    match g.running id with
    | some (.releasing key true) => ok || g.human id || g.unowned id || g.hasControllingViewerSocket key
    | _ => true
  | .executeLate index =>
    match g.late[index]? with
    | some (id,.release) =>
      !g.human id || (g.unowned id || (g.running id).any Running.lowered) && !(g.running id).any Running.raised
    | _ => true
  | _ => true

theorem controlled_of_reported (h : (g.human id || g.unowned id)=true) : Controlled id g := by
  rcases Bool.or_eq_true_iff.1 h with hhum | hunowned
  · intro _ _ _ _
    exact hhum
  · exact controlled_of_unowned hunowned

namespace Fenced

variable {id key socket : ℕ} {t : ViewerSocket}

theorem settle (hwell : WellFormed g) (h : Fenced g) {late : Bool} (hrep : reported g (.settle id late)=true)
    (hste : g.settle id late=some g') : Fenced g' := by
  unfold Gateway.settle at hste
  split at hste
  next hrun =>
    cases hste
    apply h.finish hwell
    apply h.controlled
    intro running hsom
    rw [hrun] at hsom
    cases hsom
    rfl
  next key action executed hrun =>
    cases hste
    have hcon : Controlled id g := by
      cases hlow : (Running.proxying key action executed).lowered with
      | false =>
        apply h.controlled
        intro running hsom
        rw [hrun] at hsom
        cases hsom
        exact hlow
      | true =>
        cases action with
        | take => cases executed <;> cases hlow
        | release =>
          cases executed with
          | false => cases hlow
          | true =>
            apply controlled_of_reported
            simpa [reported,hrun] using hrep
    have hgiv:=h.giveUp id action executed late
    have hwell':=hwell.giveUp id action executed late
    obtain ⟨requests,heq⟩ := giveUp_same id action executed late g
    rw [heq] at hgiv hwell' ⊢
    exact hgiv.finish hwell' hcon
  next => cases hste

/- Only the session of the transition can be controlling. -/
theorem controlled_of_owner (hwell : WellFormed g) {running : Running} (hrun : g.running id=some running)
    (hown : running.owner=some key) (hnot : ∀ s, g.session key=some s → s.controlling=false) : Controlled id g := by
  intro s hs hid hcon
  have hkey:=((hwell.owner id running key hrun hown).2 s hs).2 hid hcon
  have hfou:=hwell.session_mem hs
  rw [hkey] at hfou
  rw [hnot s hfou] at hcon
  cases hcon

theorem afterRelease (hwell : WellFormed g) (h : Fenced g) {executed released : Bool}
    (hrun : g.running id=some (.releasing key executed))
    (hrep : executed=true → released=true ∨ (g.human id || g.unowned id)=true ∨
      g.hasControllingViewerSocket key=true) : Fenced (g.afterRelease id key released) := by
  unfold Gateway.afterRelease
  split
  next hnon =>
    apply h.finish hwell
    apply controlled_of_owner hwell hrun rfl
    intro s hs
    rw [hnon] at hs
    cases hs
  next s hfou =>
    split
    next hnot =>
      apply h.finish hwell
      apply controlled_of_owner hwell hrun rfl
      intro s' hs'
      rw [hfou] at hs'
      cases hs'
      simpa using hnot
    next =>
      split
      next hviewer =>
        split
        · apply h.setRunning (h.running_paused hrun) (Or.inl rfl)
          intro hrai
          cases hrai
        · exact h.relinquish hwell id
      next hviewer =>
        split
        · exact h.relinquish hwell id
        next hnot =>
          apply h.armed hwell
          cases executed with
          | false =>
            apply h.controlled
            intro running hsom
            rw [hrun] at hsom
            cases hsom
            rfl
          | true =>
            rcases hrep rfl with hrel | hhuman | hviewer'
            · exact absurd hrel hnot
            · exact controlled_of_reported hhuman
            · exact absurd hviewer' hviewer

theorem afterRestore (hwell : WellFormed g) (h : Fenced g) {restored : Bool} (hhum : restored=true → g.human id=true) :
    Fenced (g.afterRestore id key restored) := by
  unfold Gateway.afterRestore
  split
  next hres =>
    have hcon : Controlled id g := by
      intro _ _ _ _
      simp only [Bool.and_eq_true] at hres
      exact hhum hres.1
    split
    · exact h.finish hwell hcon
    · exact h.armed hwell hcon
  next => exact h.relinquish hwell id

theorem resolve (hwell : WellFormed g) (h : Fenced g) {ok late : Bool} (hrep : reported g (.resolve id ok late)=true)
    (hste : g.resolve id ok late=some g') : Fenced g' := by
  unfold Gateway.resolve at hste
  split at hste
  next key executed hrun =>
    split at hste
    next => cases hste
    next =>
      cases hste
      have hgiv:=h.giveUp id .release executed late
      have hwell':=hwell.giveUp id .release executed late
      obtain ⟨requests,heq⟩ := giveUp_same id .release executed late g
      rw [heq] at hgiv hwell' ⊢
      apply hgiv.afterRelease hwell' hrun
      intro hexe
      rw [hexe] at hrun
      have hcas : ok=true ∨ (g.human id || g.unowned id)=true ∨ g.hasControllingViewerSocket key=true := by
        simpa [reported,hrun,or_assoc] using hrep
      exact hcas
  next key released executed hrun =>
    split at hste
    next => cases hste
    next hok =>
      cases hste
      have hgiv:=h.giveUp id .take executed late
      have hwell':=hwell.giveUp id .take executed late
      obtain ⟨requests,heq⟩ := giveUp_same id .take executed late g
      rw [heq] at hgiv hwell' ⊢
      apply hgiv.afterRestore hwell'
      intro hres
      rw [hres] at hok
      have hexe : executed=true := by simpa using hok
      rw [hexe] at hrun
      exact h.raised id _ hrun rfl
  next => cases hste

section
variable (h : Fenced g)
include h

theorem executeLate {index : ℕ} (hrep : reported g (.executeLate index)=true)
    (hste : g.executeLate index=some g') : Fenced g' := by
  obtain ⟨⟨id,action⟩,hreq,rfl⟩ := Option.map_eq_some_iff.1 hste
  cases action with
  | take =>
    have htak:=h.taken id
    exact { htak with }
  | release =>
    have hcas : g.human id=false ∨ (g.unowned id=true ∨ (g.running id).any Running.lowered=true) ∧
        (g.running id).any Running.raised=false := by
      simpa [reported,hreq] using hrep
    have hkee : ∀ id', id'≠id → (g.setHuman id .release).human id'=g.human id' :=
      fun id' hne => Function.update_of_ne hne ..
    exact
      { h with
        human := fun s hs hcon => by
          show (g.setHuman id .release).human s.id=true ∨ _
          by_cases heq : s.id=id
          · right
            rcases hcas with hfal | ⟨huno | hlowered,_⟩
            · rcases h.human s hs hcon with hhuman | hrunning
              · rw [heq,hfal] at hhuman
                cases hhuman
              · exact hrunning
            · exfalso
              have hnon : g.unowned id=false := by
                simp only [Gateway.unowned,Bool.not_eq_false']
                exact any_eq_true.2 ⟨s,hs,by simp [heq,hcon]⟩
              rw [hnon] at huno
              cases huno
            · rw [heq]
              exact (Option.any_eq_true _ _).1 hlowered
          · rw [hkee s.id heq]
            exact h.human s hs hcon
        raised := fun id' running hsom hrai => by
          show (g.setHuman id .release).human id'=true
          by_cases heq : id'=id
          · rw [heq] at hsom
            have hsom' : g.running id=some running := hsom
            rcases hcas with hfal | ⟨_,hnot⟩
            · have hhuman:=h.raised id running hsom' hrai
              rw [hfal] at hhuman
              cases hhuman
            · rw [hsom'] at hnot
              have hnot' : running.raised=false := hnot
              rw [hnot'] at hrai
              cases hrai
          · rw [hkee id' heq]
            exact h.raised id' running hsom hrai }

theorem openSession {tokenHash : String} (hste : g.openSession id tokenHash=some g') : Fenced g' := by
  unfold Gateway.openSession at hste
  split at hste
  next =>
    split at hste
    next =>
      cases hste
      exact
        { h with
          owned := fun t ht hcon => by
            obtain ⟨s,hs,hmat⟩ := h.owned t ht hcon
            exact ⟨s,mem_append_left _ hs,hmat⟩
          human := fun s hs hcog => by
            rcases mem_append.1 hs with hold | hnew
            · exact h.human s hold hcog
            · rw [mem_singleton.1 hnew] at hcog
              cases hcog }
    next => cases hste
  next => cases hste

theorem expire (key : ℕ) : Fenced (g.expire key) :=
  { h with
    owned := fun t ht hcon => by
      obtain ⟨s,hs,hkey,hid,hcog⟩ := h.owned t ht hcon
      refine ⟨_,mem_map_of_mem hs,?_⟩
      split
      · exact ⟨hkey,hid,hcog⟩
      · exact ⟨hkey,hid,hcog⟩
    human := fun s hs hcog => by
      obtain ⟨old,hold,rfl⟩ := mem_map.1 hs
      split at hcog
      next heq =>
        rw [if_pos heq]
        exact h.human old hold hcog
      next hne =>
        rw [if_neg hne]
        exact h.human old hold hcog }

theorem serialize (id : ℕ) (operation : Operation) :
    Fenced (g.serializeControlTransition id operation) :=
  { h with }

theorem requestControl (id key : ℕ) (action : HumanAction) :
    Fenced (g.requestControl id key action) := by
  unfold Gateway.requestControl
  split
  · have hval:=h.validViewSession key id
    dsimp only
    split
    · exact hval.serialize id _
    · exact hval
  · exact h

theorem upgrade (id key : ℕ) : Fenced (g.upgrade id key) := by
  unfold Gateway.upgrade
  split
  · have hval:=h.validViewSession key id
    dsimp only
    split
    · exact hval
    next s hs =>
      obtain ⟨hmem,hkey,hid,_,_⟩ := validViewSession_some hs
      have htra : Fenced { (g.validViewSession key id).1 with
          viewerSockets := (g.validViewSession key id).1.viewerSockets ++
            [⟨(g.validViewSession key id).1.nextSocket,key,id,s.controlling,.waiting,true,false⟩]
          nextSocket := (g.validViewSession key id).1.nextSocket+1 } :=
        { hval with
          owned := fun t ht hcon => by
            rcases mem_append.1 ht with hold | hnew
            · exact hval.owned t hold hcon
            · rw [mem_singleton.1 hnew] at hcon ⊢
              exact ⟨s,hmem,hkey,hid,hcon.1⟩
          paused := fun t ht hpip hrun => by
            rcases mem_append.1 ht with hold | hnew
            · exact hval.paused t hold hpip hrun
            · rw [mem_singleton.1 hnew] at hpip
              cases hpip.1 }
      split
      · exact htra.timers _
      · exact htra
  · exact h

theorem unpiped (socket : ℕ) {f : ViewerSocket → ViewerSocket}
    (hf : ∀ t, (f t).controls → t.controls ∧ (f t).key=t.key ∧ (f t).id=t.id)
    (hpha : ∀ t, (f t).phase≠.ready) : Fenced (g.setSocket socket f) := by
  apply h.mapSockets
  · intro t hcon
    split at hcon
    next heq =>
      rw [if_pos heq]
      exact hf t hcon
    next hne =>
      rw [if_neg hne]
      exact ⟨hcon,rfl,rfl⟩
  · intro t hpip
    split at hpip
    next => exact absurd hpip.1 (hpha t)
    next hne =>
      rw [if_neg hne]
      exact ⟨hpip,fun hpau => hpau⟩

theorem refused (socket : ℕ) : Fenced (g.setSocket socket fun t => { t with phase := .refused }) :=
  h.unpiped socket (fun _ hcon => ⟨hcon,rfl,rfl⟩) fun _ hpha => by cases hpha

theorem rejected (socket : ℕ) : Fenced (g.setSocket socket fun t => { t with phase := .rejected }) :=
  h.unpiped socket (fun _ hcon => ⟨hcon,rfl,rfl⟩) fun _ hpha => by cases hpha

end

theorem pruned_socket (hwell : WellFormed g) {old : ViewerSocket} (ht : t ∈ g.viewerSockets)
    (hold : old ∈ g.pruneExpired.viewerSockets) (hsoc : old.socket=t.socket) :
    old.key=t.key ∧ old.id=t.id ∧ old.controlling=t.controlling := by
  obtain ⟨first,hfir,rfl⟩ := mem_map.1 hold
  have hfirst_socket : first.socket=t.socket := by
    rw [← hsoc]
    split <;> rfl
  rw [hwell.socket_unique hfir ht hfirst_socket]
  split <;> exact ⟨rfl,rfl,rfl⟩

section
variable (hwell : WellFormed g) (h : Fenced g)
include hwell h

theorem connecting {s : ViewSession} (target : ViewTarget) (ht : g.findSocket t.socket=some t)
    (hs : (g.validViewSession t.key t.id).2=some s) :
    Fenced ((g.validViewSession t.key t.id).1.setSocket t.socket fun t =>
      { t with controlling := s.controlling, phase := .connecting target }) := by
  have hval:=h.validViewSession t.key t.id
  obtain ⟨hmem,hkey,hid,_,_⟩ := validViewSession_some hs
  obtain ⟨htme,_⟩ := findSocket_some ht
  exact
    { hval with
      owned := fun new hnew hcon => by
        obtain ⟨old,hmem_old,rfl⟩ := mem_map.1 hnew
        split at hcon
        next heq =>
          rw [if_pos heq]
          obtain ⟨hkey',hid',_⟩ := pruned_socket hwell htme hmem_old heq
          exact ⟨s,hmem,hkey.trans hkey'.symm,hid.trans hid'.symm,hcon.1⟩
        next hne =>
          rw [if_neg hne]
          exact hval.owned old hmem_old hcon
      paused := fun new hnew hpip hrun => by
        obtain ⟨old,hmem_old,rfl⟩ := mem_map.1 hnew
        split at hpip
        next => cases hpip.1
        next hne =>
          rw [if_neg hne] at hrun ⊢
          exact hval.paused old hmem_old hpip hrun }

theorem connect (hste : g.connect socket=some g') : Fenced g' := by
  unfold Gateway.connect at hste
  split at hste
  next t ht =>
    obtain ⟨_,rfl⟩ := findSocket_some ht
    split at hste
    next =>
      split at hste
      next =>
        cases hste
        exact h.refused t.socket
      next route hrou =>
        have hval:=h.validViewSession t.key t.id
        dsimp only at hste
        split at hste
        next =>
          cases hste
          exact hval.refused t.socket
        next s hs =>
          split at hste
          next target _ _ =>
            cases hste
            exact h.connecting hwell target ht hs
          next =>
            cases hste
            exact hval.refused t.socket
    next => cases hste
  next => cases hste

/- The session is still controlling, and no transition of its computer runs. -/
theorem pipe (ht : g.findSocket t.socket=some t) (htra : g.transitioning t.id=false) :
    Fenced ((g.validViewSession t.key t.id).1.setSocket t.socket fun t => { t with phase := .ready, paused := false }) := by
  have hval:=h.validViewSession t.key t.id
  obtain ⟨htme,_⟩ := findSocket_some ht
  have hidl : g.running t.id=none := by
    have hidl:=htra
    simp only [Gateway.transitioning,Bool.or_eq_false_iff] at hidl
    simpa using hidl.1
  exact
    { hval with
      owned := fun new hnew hcon => by
        obtain ⟨old,hmem_old,rfl⟩ := mem_map.1 hnew
        split at hcon
        next heq =>
          rw [if_pos heq]
          exact hval.owned old hmem_old hcon
        next hne =>
          rw [if_neg hne]
          exact hval.owned old hmem_old hcon
      paused := fun new hnew hpip hrun => by
        obtain ⟨old,hmem_old,rfl⟩ := mem_map.1 hnew
        split at hpip
        next heq =>
          rw [if_pos heq] at hrun
          obtain ⟨_,hid',_⟩ := pruned_socket hwell htme hmem_old heq
          have hrun' : (g.running old.id).isSome=true := hrun
          rw [hid',hidl] at hrun'
          cases hrun'
        next hne =>
          rw [if_neg hne] at hrun ⊢
          exact hval.paused old hmem_old hpip hrun }

theorem connected (hste : g.connected socket=some g') : Fenced g' := by
  unfold Gateway.connected at hste
  split at hste
  next t ht =>
    obtain ⟨_,rfl⟩ := findSocket_some ht
    split at hste
    next target hpha =>
      split at hste
      next hrea =>
        split at hste
        next =>
          cases hste
          exact h.rejected t.socket
        next route hrou =>
          have hval:=h.validViewSession t.key t.id
          dsimp only at hste
          split at hste
          next =>
            cases hste
            exact hval.rejected t.socket
          next s hs =>
            split at hste
            next =>
              cases hste
              exact h.pipe hwell ht hrea.2
            next =>
              cases hste
              exact hval.rejected t.socket
      next => cases hste
    next => cases hste
  next => cases hste

end

theorem closed (h : Fenced g) (hste : g.closed socket=some g') : Fenced g' := by
  unfold Gateway.closed at hste
  split at hste
  next t ht =>
    split at hste
    next =>
      cases hste
      have hres : Fenced { g with viewerSockets := g.viewerSockets.filter (·.socket≠socket) } :=
        { h with
          owned := fun t ht => h.owned t (mem_filter.1 ht).1
          paused := fun t ht => h.paused t (mem_filter.1 ht).1 }
      split
      next s hfou =>
        split
        · exact hres.arm s.key s.id
        · exact hres
      next => exact hres
    next => cases hste
  next => cases hste

theorem step (hwell : WellFormed g) (h : Fenced g) {action : GatewayAction}
    (hrep : reported g action=true) (hste : gatewayStep g action=some g') : Fenced g' := by
  cases action with
  | setRoute id route =>
    cases hste
    exact { h with }
  | openSession id tokenHash => exact h.openSession hste
  | expire key =>
    cases hste
    exact h.expire key
  | pruneExpired =>
    cases hste
    exact h.pruneExpired
  | requestControl id key action =>
    cases hste
    exact h.requestControl id key action
  | operatorRelease id =>
    simp only [gatewayStep] at hste
    split at hste
    · cases hste
      exact h.serialize id _
    · cases hste
  | beginTransition id refused => exact h.beginTransition hwell hste
  | execute id => exact h.execute hste
  | succeed id => exact h.succeed hste
  | settle id late => exact h.settle hwell hrep hste
  | resolve id ok late => exact h.resolve hwell hrep hste
  | executeLate index => exact h.executeLate hrep hste
  | upgrade id key =>
    cases hste
    exact h.upgrade id key
  | connect socket => exact h.connect hwell hste
  | connected socket => exact h.connected hwell hste
  | disconnect socket =>
    cases hste
    exact h.destroySockets _
  | closed socket => exact h.closed hste
  | abandonedTimerFires timer =>
    simp only [gatewayStep,Gateway.abandonedTimerFires] at hste
    split at hste
    next hmem =>
      cases hste
      exact (h.timers _).serialize timer.id _
    next => cases hste

theorem start (routes : ℕ → Option RuntimeRoute) : Fenced (Gateway.start routes) where
  owned := fun t ht => absurd ht not_mem_nil
  paused := fun t ht => absurd ht not_mem_nil
  human := fun s hs => absurd hs not_mem_nil
  raised := fun id running hrun => by cases hrun

theorem input (h : Fenced g) (ht : t ∈ g.viewerSockets) (hpip : t.piped) (hpau : t.paused=false) :
    g.human t.id=true := by
  obtain ⟨s,hs,_,hid,hcon⟩ := h.owned t ht hpip.2
  rcases h.human s hs hcon with hhum | ⟨running,hrun,_⟩
  · rw [hid] at hhum
    exact hhum
  · exfalso
    rw [hid] at hrun
    have hpau':=h.paused t ht hpip (by rw [hrun]; rfl)
    rw [hpau] at hpau'
    cases hpau'

end Fenced

/-- No viewer's input reaches the controlling port while the computer is not in human control. -/
def InputFenced (g : Gateway) : Prop :=
  ∀ t ∈ g.viewerSockets, t.piped → t.paused=false → g.human t.id=true

instance (t : ViewerSocket) : Decidable t.piped := by
  unfold ViewerSocket.piped ViewerSocket.controls
  exact inferInstance

instance (g : Gateway) : Decidable (InputFenced g) := by
  unfold InputFenced
  exact inferInstance

theorem controlling_input_fenced {g₀ g : Gateway} {actions : List GatewayAction}
    (h₀ : gatewaySystem.initial g₀)
    (hr : gatewaySystem.RunWhere (fun g action => reported g action=true) g₀ actions g) : InputFenced g := by
  obtain ⟨routes,rfl⟩ := h₀
  have hinv : WellFormed g ∧ Fenced g := by
    apply hr.preserves (P := fun g => WellFormed g ∧ Fenced g)
    · intro g action g' ⟨hwell,h⟩ hrep hste
      exact ⟨hwell.step hste,h.step hwell hrep hste⟩
    · exact ⟨.start routes,.start routes⟩
  intro t ht hpip hpau
  exact hinv.2.input ht hpip hpau

def demoRoutes : ℕ → Option RuntimeRoute := fun id =>
  if id=0 then some ⟨"10.0.0.2",none,some 6080,some 6081,"key",none,[.viewer],"owner",[]⟩ else none

def demoTake : List GatewayAction :=
  [.openSession 0 "owner",.requestControl 0 0 .take,.beginTransition 0 false,.execute 0,.succeed 0,
    .settle 0 false,.upgrade 0 0,.connect 0,.connected 0]

/-- The viewer is piped and not paused, and the computer is in human control. -/
theorem controlling_input_fenced_run :
    ∃ g₀ g, gatewaySystem.initial g₀ ∧
      gatewaySystem.RunWhere (fun g action => reported g action=true) g₀ demoTake g ∧
      (g.viewerSockets.any fun t => t.piped && !t.paused)=true ∧ InputFenced g := by
  have hexe : (gatewaySystem.execWhere reported (Gateway.start demoRoutes) demoTake).map (fun g =>
      g.viewerSockets.any fun t => t.piped && !t.paused)=some true := by decide
  obtain ⟨g,hrun,hpip⟩ := Option.map_eq_some_iff.1 hexe
  have hwhe:=TransitionSystem.runWhere_of_exec hrun
  exact ⟨_,g,⟨demoRoutes,rfl⟩,hwhe,hpip,controlling_input_fenced ⟨demoRoutes,rfl⟩ hwhe⟩

/-- The operator's release is carried out and its response is lost: the viewer goes on. -/
theorem unfenced_input :
    ¬ ∀ g, gatewaySystem.Reachable g → InputFenced g := by
  intro h
  have hexe : (gatewaySystem.exec (Gateway.start demoRoutes) (demoTake ++
      [.operatorRelease 0,.beginTransition 0 false,.execute 0,.settle 0 false])).map
      (fun g => decide (InputFenced g))=some false := by decide
  obtain ⟨g,hrun,hnot⟩ := Option.map_eq_some_iff.1 hexe
  have hfen:=h g ⟨_,_,⟨demoRoutes,rfl⟩,TransitionSystem.run_of_exec hrun⟩
  exact of_decide_eq_false hnot hfen

end Qubicl.Viewing
