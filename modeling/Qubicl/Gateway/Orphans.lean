import Qubicl.Gateway.FencedInput

/-!
# Human control is not orphaned

Where no transition of a computer runs or waits, the computer is in human control exactly
if a session of it is controlling, and that session has a viewer or an armed timer: as
long as every request is answered and no step drops an owner without telling the computer.
-/

namespace Qubicl.Viewing
open Foundation Gateway List

variable {g g' : Gateway}

/- A request that fails was not carried out and never will be. -/
def answered (g : Gateway) : GatewayAction → Bool
  | .settle id late =>
    match g.running id with
    | some (.proxying _ _ executed) => !executed && !late
    | _ => true
  | .resolve id ok late =>
    ok ||
      match g.running id with
      | some (.releasing _ executed) => !executed && !late
      | some (.restoring _ _ executed) => !executed && !late
      | _ => true
  | _ => true

def losesOwner (g : Gateway) : Bool := g.sessions.any fun s => g.dropped s && s.controlling && g.human s.id

/-- No step takes the control from a session while the computer stays in human control,
and no step leaves a controlling session a refused viewer. -/
def kept (g : Gateway) (action : GatewayAction) : Bool :=
  !(prunes g action && losesOwner g) &&
    match action with
    -- the session for which the control was taken is still there
    | .succeed id =>
      match g.running id with
      | some (.proxying key .take _) => key.any fun key => (g.session key).isSome
      | _ => true
    -- an abandoned control is only given up with a release
    | .beginTransition id _ =>
      match g.queue id with
      | .abandoned key::_ =>
        (g.session key).all fun s => !s.controlling || g.hasControllingViewerSocket key || g.accepts s
      | _ => true
    | .resolve id ok _ =>
      match g.running id with
      | some (.releasing key _) => ok || !g.hasControllingViewerSocket key || (g.session key).all g.accepts
      | some (.restoring key released _) =>
        if ok then ((g.session key).map ViewSession.controlling).getD false else released
      | _ => true
    | .connect socket =>
      match g.findSocket socket with
      | some t =>
        !t.controlling ||
          match g.routes t.id with
          | some route => hasViewPorts route || (g.validViewSession t.key t.id).2.isNone
          | none => false
      | none => true
    | _ => true

def Gateway.Owned (id : ℕ) (g : Gateway) : Prop := ∃ s ∈ g.sessions, s.id=id ∧ s.controlling=true

/- What a transition knows of the computer's control. -/
def Accounted (human : Bool) (owned : Prop) : Option Running → Prop
  | some (.proxying _ action true) => human=decide (action=.take)
  | some (.releasing _ true) => human=false
  | some (.restoring _ released executed) => human=(executed || !released)
  | _ => human=true ↔ owned

/- The session has a viewer or an armed timer. A socket counts until its `close` event,
which is what arms the timer, but not once its upgrade was refused. -/
def Watched (g : Gateway) (key : ℕ) : Prop :=
  (∃ t ∈ g.viewerSockets, t.key=key ∧ t.controlling=true ∧ t.phase≠.refused) ∨
    ∃ timer ∈ g.abandonedControlTimers, timer.key=key

/- The session whose abandoned control a transition releases or restores. -/
def Running.releases : Running → Option ℕ
  | .releasing key _ => some key
  | .restoring key _ _ => some key
  | _ => none

def Attended (g : Gateway) (s : ViewSession) (running : Option Running) : Prop :=
  Watched g s.key ∨ Operation.abandoned s.key ∈ g.queue s.id ∨ running.bind Running.releases=some s.key

/- The invariant for every computer but one, whose transition is being looked at. -/
structure KeptBut (id : ℕ) (g : Gateway) : Prop where
  accounted : ∀ other, other≠id → Accounted (g.human other) (g.Owned other) (g.running other)
  attended : ∀ s ∈ g.sessions, s.controlling=true → s.id≠id → Attended g s (g.running s.id)
  refused : ∀ t ∈ g.viewerSockets, t.controls → t.phase≠.refused
  late : g.late=[]

structure Kept (g : Gateway) : Prop where
  accounted : ∀ id, Accounted (g.human id) (g.Owned id) (g.running id)
  attended : ∀ s ∈ g.sessions, s.controlling=true → Attended g s (g.running s.id)
  refused : ∀ t ∈ g.viewerSockets, t.controls → t.phase≠.refused
  late : g.late=[]

/-- The control of one computer agrees with its sessions. -/
def Agreed (id : ℕ) (g : Gateway) : Prop := g.human id=true ↔ g.Owned id

/-- The controlling session of one computer is attended, in a transition or in none. -/
def AttendedAt (id : ℕ) (running : Option Running) (g : Gateway) : Prop :=
  ∀ s ∈ g.sessions, s.controlling=true → s.id=id → Attended g s running

theorem Kept.but (h : Kept g) (id : ℕ) : KeptBut id g where
  accounted := fun other _ => h.accounted other
  attended := fun s hs hcon _ => h.attended s hs hcon
  refused := h.refused
  late := h.late

theorem Kept.attendedAt (h : Kept g) {id : ℕ} {running running' : Option Running} (hrun : g.running id=running)
    (hsam : running.bind Running.releases=running'.bind Running.releases) : AttendedAt id running' g := by
  intro s hs hcon hid
  have hatt:=h.attended s hs hcon
  rw [hid,hrun] at hatt
  unfold Attended at hatt ⊢
  rw [← hsam]
  exact hatt

variable {running : Option Running}

theorem Kept.agreed (h : Kept g) {id : ℕ} (hrun : g.running id=running)
    (hacc : ∀ human owned, Accounted human owned running → (human=true ↔ owned)) : Agreed id g := by
  have := h.accounted id
  rw [hrun] at this
  exact hacc _ _ this

/- Nothing the session is attended by goes away. -/
variable {s : ViewSession} {controller : Option ℕ}

theorem Attended.mono {s' : ViewSession} {running' : Option Running} (h : Attended g s running) (hkey : s'.key=s.key)
    (hid : s'.id=s.id) (hwat : Watched g s.key → Watched g' s.key)
    (hque : Operation.abandoned s.key ∈ g.queue s.id → Operation.abandoned s.key ∈ g'.queue s.id)
    (hrun : running.bind Running.releases=some s.key → running'.bind Running.releases=some s.key) :
    Attended g' s' running' := by
  unfold Attended
  rw [hkey,hid]
  exact h.imp hwat (Or.imp hque hrun)

theorem Attended.watched (h : Attended g s running) (hwat : Watched g s.key → Watched g' s.key)
    (hque : g'.queue=g.queue) : Attended g' s running :=
  h.mono rfl rfl hwat (fun hq => hque ▸ hq) fun hr => hr

theorem Attended.starts (h : Attended g s none) : Attended g s running := by
  apply h.mono rfl rfl (fun hw => hw) fun hq => hq
  intro hnon
  cases hnon

theorem AttendedAt.starts {id : ℕ} (h : AttendedAt id none g) :
    AttendedAt id running g :=
  fun s hs hcon hid => (h s hs hcon hid).starts

section
variable (hrefused : ∀ t ∈ g.viewerSockets, t.controls → t.phase≠.refused) {key : ℕ}
   (hviewer : g.hasControllingViewerSocket key=true)
include hrefused hviewer

theorem socket_of_viewer :
    ∃ t ∈ g.viewerSockets, t.key=key ∧ t.controlling=true ∧ t.phase≠.refused := by
  obtain ⟨t,ht,hmat⟩ := any_eq_true.1 hviewer
  simp only [Bool.and_eq_true,decide_eq_true_eq,Bool.not_eq_true'] at hmat
  exact ⟨t,ht,hmat.1.1,hmat.1.2,hrefused t ht ⟨hmat.1.2,hmat.2⟩⟩

theorem watched_of_viewer : Watched g key :=
  Or.inl (socket_of_viewer hrefused hviewer)

end

def Quiet (f : ViewerSocket → ViewerSocket) : Prop :=
  ∀ t, (f t).key=t.key ∧ (f t).controlling=t.controlling ∧ (f t).phase=t.phase ∧
    ((f t).destroyed=false → t.destroyed=false)

variable {f : ViewerSocket → ViewerSocket}

theorem socket_map (hf : Quiet f) {key : ℕ}
    (h : ∃ t ∈ g.viewerSockets, t.key=key ∧ t.controlling=true ∧ t.phase≠.refused) :
    ∃ t ∈ g.viewerSockets.map f, t.key=key ∧ t.controlling=true ∧ t.phase≠.refused := by
  obtain ⟨t,ht,hkey,hcon,hpha⟩ := h
  obtain ⟨hk,hc,hp,_⟩ := hf t
  exact ⟨f t,mem_map_of_mem ht,hk.trans hkey,hc.trans hcon,hp ▸ hpha⟩

theorem watched_map (hf : Quiet f) {key : ℕ} (h : Watched g key) :
    Watched { g with viewerSockets := g.viewerSockets.map f } key :=
  h.imp (socket_map hf) fun htim => htim

theorem refused_map (hf : Quiet f)
    (h : ∀ t ∈ g.viewerSockets, t.controls → t.phase≠.refused) :
    ∀ t ∈ g.viewerSockets.map f, t.controls → t.phase≠.refused := by
  intro t ht hcon
  obtain ⟨old,hold,rfl⟩ := mem_map.1 ht
  obtain ⟨_,hc,hp,hd⟩ := hf old
  rw [hp]
  exact h old hold ⟨hc ▸ hcon.1,hd hcon.2⟩

theorem quiet_destroy (p : ViewerSocket → Bool) :
    Quiet fun t => if p t then { t with destroyed := true } else t := by
  intro t
  dsimp only
  split
  next => exact ⟨rfl,rfl,rfl,fun hfal => by cases hfal⟩
  next => exact ⟨rfl,rfl,rfl,fun hfal => hfal⟩

theorem quiet_pause (p : ViewerSocket → Bool) (paused : Bool) :
    Quiet fun t => if p t then { t with paused := paused } else t := by
  intro t
  dsimp only
  split
  next => exact ⟨rfl,rfl,rfl,fun hfal => hfal⟩
  next => exact ⟨rfl,rfl,rfl,fun hfal => hfal⟩

namespace KeptBut
variable {id : ℕ}

theorem mapSockets (h : KeptBut id g) (hf : Quiet f) : KeptBut id { g with viewerSockets := g.viewerSockets.map f } :=
  { h with
    attended := fun s hs hcon hid =>
      (h.attended s hs hcon hid).mono rfl rfl (watched_map hf) (fun hq => hq) fun hr => hr
    refused := refused_map hf h.refused }

theorem setQueue (h : KeptBut id g) (operations : List Operation) :
    KeptBut id { g with queue := Function.update g.queue id operations } :=
  { h with
    attended := fun s hs hcon hid => by
      apply (h.attended s hs hcon hid).mono rfl rfl
      · intro hwat
        exact hwat
      · intro hque
        show _ ∈ Function.update g.queue id operations s.id
        rw [Function.update_of_ne hid]
        exact hque
      · intro hrel
        exact hrel }

theorem setHuman (h : KeptBut id g) (action : HumanAction) : KeptBut id (g.setHuman id action) :=
  { h with
    accounted := fun other hne => by
      show Accounted (Function.update g.human id (action=.take) other) _ _
      rw [Function.update_of_ne hne]
      exact h.accounted other hne }

theorem setRunning (h : KeptBut id g) (hacc : Accounted (g.human id) (g.Owned id) running)
    (hatt : AttendedAt id running g) :
    Kept (g.setRunning id running) where
  accounted := fun other => by
    show Accounted _ _ (Function.update g.running id running other)
    by_cases heq : other=id
    · rw [heq,Function.update_self]
      exact hacc
    · rw [Function.update_of_ne heq]
      exact h.accounted other heq
  attended := fun s hs hcon => by
    show Attended _ s (Function.update g.running id running s.id)
    by_cases heq : s.id=id
    · rw [heq,Function.update_self]
      exact hatt s hs hcon heq
    · rw [Function.update_of_ne heq]
      exact h.attended s hs hcon heq
  refused := h.refused
  late := h.late

theorem finish (h : KeptBut id g) (hagr : Agreed id g) (hatt : AttendedAt id none g) : Kept (g.finish id) := by
  have hqui:=quiet_pause (fun t => t.controlling && t.phase=.ready &&
    g.sessions.any (fun s => s.key=t.key && s.id=id && s.controlling)) false
  have hacc : Accounted (g.human id) (g.Owned id) none := hagr
  apply (h.mapSockets hqui).setRunning hacc
  intro s hs hcon hid
  exact (hatt s hs hcon hid).mono rfl rfl (watched_map hqui) (fun hq => hq) fun hr => hr

theorem setControllingSession (hwel : WellFormed g) (h : KeptBut id g) (controller : Option ℕ) :
    KeptBut id (g.setControllingSession id controller) where
  accounted := fun other hne => by
    have hown : (g.setControllingSession id controller).Owned other ↔ g.Owned other := by
      constructor
      · intro ⟨s,hs,hid,hcon⟩
        obtain ⟨old,hold,_,hid',_,hsam⟩ := WellFormed.mem_setControllingSession hs
        exact ⟨old,hold,by rw [← hid',hid],hsam (by rw [hid]; exact hne) ▸ hcon⟩
      · intro ⟨s,hs,hid,hcon⟩
        refine ⟨_,mem_map_of_mem hs,?_⟩
        rw [if_neg (by rw [hid]; exact hne)]
        exact ⟨hid,hcon⟩
    have := h.accounted other hne
    rw [← propext hown] at this
    exact this
  attended := fun s hs hcon hid => by
    obtain ⟨old,hold,hkey,hid',_,hsam⟩ := WellFormed.mem_setControllingSession hs
    have hold_id : old.id≠id := by
      rw [← hid']
      exact hid
    have hatt:=h.attended old hold (hsam hid ▸ hcon) hold_id
    rw [hid']
    apply hatt.mono hkey hid'
    · intro hwat
      rcases hwat with hsoc | ⟨timer,htim,htke⟩
      · left
        exact socket_map (quiet_destroy _) hsoc
      · right
        refine ⟨timer,mem_append_left _ (mem_filter.2 ⟨htim,?_⟩),htke⟩
        simp only [Bool.not_eq_true',any_eq_false,Bool.and_eq_true,decide_eq_true_eq,not_and]
        intro s₀ hs₀ hk₀
        rw [hwel.session_unique hs₀ hold (hk₀.trans htke)]
        exact hold_id
    · intro hque
      exact hque
    · intro hrel
      exact hrel
  refused := refused_map (quiet_destroy _) h.refused
  late := h.late

end KeptBut

variable {running : Option Running}

theorem Accounted.congr {human : Bool} {owned owned' : Prop}
    (h : Accounted human owned running) (hbac : owned' → owned) (hfor : human=true → owned → owned') :
    Accounted human owned' running := by
  have hagr : (human=true ↔ owned) → (human=true ↔ owned') := by
    intro hiff
    constructor
    · intro hhum
      exact hfor hhum (hiff.1 hhum)
    · intro hown
      exact hiff.2 (hbac hown)
  cases running with
  | none => exact hagr h
  | some running =>
    cases running with
    | proxying key action executed =>
      cases executed with
      | false => exact hagr h
      | true => exact h
    | answered => exact hagr h
    | releasing key executed =>
      cases executed with
      | false => exact hagr h
      | true => exact h
    | restoring key released executed => exact h

theorem owned_prune {id : ℕ} (hlos : losesOwner g=false) (hhum : g.human id=true) (h : g.Owned id) :
    g.pruneExpired.Owned id := by
  obtain ⟨s,hs,hid,hcon⟩ := h
  refine ⟨s,mem_filter.2 ⟨hs,?_⟩,hid,hcon⟩
  have := any_eq_false.1 hlos s hs
  rw [hid,hhum,hcon,Bool.and_true,Bool.and_true] at this
  simpa using this

theorem accounted_prune {id : ℕ} (hlos : losesOwner g=false)
    (h : Accounted (g.human id) (g.Owned id) running) : Accounted (g.human id) (g.pruneExpired.Owned id) running :=
  h.congr (fun ⟨s,hs,hmat⟩ => ⟨s,(mem_filter.1 hs).1,hmat⟩) (owned_prune hlos)

theorem attended_prune (hwel : WellFormed g) (hs : s ∈ g.pruneExpired.sessions) (h : Attended g s running) :
    Attended g.pruneExpired s running := by
  obtain ⟨hmem,hkep⟩ := mem_filter.1 hs
  refine h.watched ?_ rfl
  intro hwat
  rcases hwat with hsoc | ⟨timer,htim,htke⟩
  · exact Or.inl (socket_map (quiet_destroy _) hsoc)
  · right
    refine ⟨timer,mem_append_left _ (mem_filter.2 ⟨htim,?_⟩),htke⟩
    simp only [Bool.not_eq_true',any_eq_false,Bool.and_eq_true,decide_eq_true_eq,not_and]
    intro s₀ hs₀ hk₀
    rw [hwel.session_unique hs₀ hmem (hk₀.trans htke)]
    simpa using hkep

theorem KeptBut.pruneExpired {id : ℕ} (hwel : WellFormed g) (h : KeptBut id g) (hlos : losesOwner g=false) :
    KeptBut id g.pruneExpired where
  accounted := fun other hne => accounted_prune hlos (h.accounted other hne)
  attended := fun s hs hcon hid =>
    attended_prune hwel hs (h.attended s (mem_filter.1 hs).1 hcon hid)
  refused := refused_map (quiet_destroy _) h.refused
  late := h.late

theorem Kept.pruneExpired (hwel : WellFormed g) (h : Kept g) (hlos : losesOwner g=false) :
    Kept g.pruneExpired where
  accounted := fun id => accounted_prune hlos (h.accounted id)
  attended := fun s hs hcon => attended_prune hwel hs (h.attended s (mem_filter.1 hs).1 hcon)
  refused := refused_map (quiet_destroy _) h.refused
  late := h.late

/- A session for which a release was armed is watched, and no other loses its timer. -/
theorem watched_arm (hrefused : ∀ t ∈ g.viewerSockets, t.controls → t.phase≠.refused) {key key' id : ℕ}
    (h : key'=key ∨ Watched g key') : Watched (g.armAbandonedControlRelease key id) key' := by
  obtain ⟨timers,heq,_,hoth,harm⟩ := armAbandonedControlRelease_cases key id g
  rw [heq]
  by_cases hkey : key'=key
  · rcases harm with hviewer | htimer
    · rw [hkey]
      exact Or.inl (socket_of_viewer hrefused hviewer)
    · exact Or.inr ⟨_,htimer,hkey.symm⟩
  · rcases h.resolve_left hkey with hsoc | ⟨timer,htimer,htke⟩
    · exact Or.inl hsoc
    · exact Or.inr ⟨timer,hoth timer htimer (by rw [htke]; exact hkey),htke⟩

theorem KeptBut.arm {id : ℕ} (h : KeptBut id g) (key : ℕ) : KeptBut id (g.armAbandonedControlRelease key id) := by
  have hwat : ∀ {key'}, Watched g key' → Watched (g.armAbandonedControlRelease key id) key' :=
    fun hw => watched_arm h.refused (Or.inr hw)
  obtain ⟨timers,heq,_⟩ := armAbandonedControlRelease_cases key id g
  rw [heq] at hwat ⊢
  exact
    { h with
      attended := fun s hs hcon hid => by
        exact (h.attended s hs hcon hid).watched hwat rfl }

theorem attendedAt_setControllingSession {id : ℕ} (hrefused : ∀ t ∈ g.viewerSockets, t.controls → t.phase≠.refused) :
    AttendedAt id running (g.setControllingSession id controller) := by
  intro s hs hcog hid
  obtain ⟨old,hold,hkey,hid',hset,_⟩ := WellFormed.mem_setControllingSession hs
  have hcon:=(hset hid).1 hcog
  left
  by_cases hviewer : g.hasControllingViewerSocket s.key=true
  · left
    exact socket_map (quiet_destroy _) (socket_of_viewer hrefused hviewer)
  · right
    refine ⟨⟨s.key,s.id⟩,mem_append_right _ ?_,rfl⟩
    apply mem_map.2
    refine ⟨old,mem_filter.2 ⟨hold,?_⟩,by rw [hkey,hid']⟩
    rw [hkey] at hcon hviewer
    simpa [← hid',hid,hcon] using hviewer

theorem owned_setControllingSession {id : ℕ} :
    (g.setControllingSession id controller).Owned id ↔ ∃ s ∈ g.sessions, s.id=id ∧ controller=some s.key := by
  constructor
  · intro ⟨s,hs,hid,hcog⟩
    obtain ⟨old,hold,hkey,hid',hset,_⟩ := WellFormed.mem_setControllingSession hs
    exact ⟨old,hold,by rw [← hid',hid],by rw [(hset hid).1 hcog,hkey]⟩
  · intro ⟨s,hs,hid,hcon⟩
    refine ⟨_,mem_map_of_mem hs,?_⟩
    rw [if_pos hid]
    exact ⟨hid,by simpa using hcon⟩

theorem KeptBut.relinquish {id : ℕ} (hwel : WellFormed g) (h : KeptBut id g) (hhum : g.human id=false) :
    Kept ((g.setControllingSession id none).finish id) := by
  apply (h.setControllingSession hwel none).finish
  · have huno : ¬ (g.setControllingSession id none).Owned id := by
      intro hown
      obtain ⟨_,_,_,hnon⟩ := owned_setControllingSession.1 hown
      cases hnon
    have hlow : (g.setControllingSession id none).human id=false := hhum
    unfold Agreed
    rw [hlow]
    constructor
    · intro htru
      cases htru
    · intro hown
      exact absurd hown huno
  · exact attendedAt_setControllingSession h.refused

namespace KeptBut
variable {id : ℕ}

theorem operate (hwel : WellFormed g) (h : KeptBut id g) {refused : Bool} {operation : Operation}
    (hagr : Agreed id g)
    (hatt : ∀ s ∈ g.sessions, s.controlling=true → s.id=id → operation≠.abandoned s.key → Attended g s none)
    (hlos : ∀ key action, operation=.viewer key action → refused=false → (g.routes id).isSome=true →
      losesOwner g=false)
    (hacs : ∀ key s, operation=.abandoned key → g.session key=some s → s.controlling=true →
      g.hasControllingViewerSocket key=false → g.accepts s=true) :
    Kept (g.operate id refused operation) := by
  unfold Gateway.operate
  split
  next key action =>
    have hatt' : AttendedAt id none g := fun s hs hcon hid =>
      hatt s hs hcon hid fun heq => by cases heq
    split
    next => exact h.finish hagr hatt'
    next hope =>
      have hope' : refused=false ∧ (g.routes id).isSome=true := by
        simpa [Option.isSome_iff_ne_none] using hope
      have hlos':=hlos key action rfl hope'.1 hope'.2
      have hval : KeptBut id (g.validViewSession key id).1 := h.pruneExpired hwel hlos'
      have hagr' : Agreed id (g.validViewSession key id).1 := by
        have hacd : Accounted (g.human id) (g.Owned id) none := hagr
        exact accounted_prune hlos' hacd
      have hatt'' : AttendedAt id none (g.validViewSession key id).1 := fun s hs hcon hid =>
        attended_prune hwel hs (hatt' s (mem_filter.1 hs).1 hcon hid)
      dsimp only
      split
      next => exact hval.finish hagr' hatt''
      next s hs =>
        split
        next => exact hval.finish hagr' hatt''
        next =>
          split
          next => exact hval.finish hagr' hatt''
          next =>
            apply hval.setRunning
            · exact hagr'
            · exact hatt''.starts
  next =>
    have hatt' : AttendedAt id none g := fun s hs hcon hid =>
      hatt s hs hcon hid fun heq => by cases heq
    split
    next => exact h.finish hagr hatt'
    next =>
      apply h.setRunning
      · exact hagr
      · exact hatt'.starts
  next key =>
    have hoth : ∀ s ∈ g.sessions, s.controlling=true → s.id=id → s.key≠key → Attended g s none :=
      fun s hs hcon hid hne => hatt s hs hcon hid fun heq => hne (by cases heq; rfl)
    split
    next hnon =>
      apply h.finish hagr
      intro s hs hcon hid
      exact hoth s hs hcon hid (session_none hnon s hs)
    next s hfou =>
      obtain ⟨hs,hkey⟩ := session_some hfou
      have heq : ∀ s' ∈ g.sessions, s'.key=key → s'=s := fun s' hs' hkey' =>
        hwel.session_unique hs' hs (hkey'.trans hkey.symm)
      split
      next hidl =>
        apply h.finish hagr
        intro s' hs' hcon hid
        by_cases hkey' : s'.key=key
        · rw [heq s' hs' hkey'] at hcon ⊢
          have hviewer : g.hasControllingViewerSocket key=true := by simpa [hcon] using hidl
          left
          rw [hkey]
          exact watched_of_viewer h.refused hviewer
        · exact hoth s' hs' hcon hid hkey'
      next hidl =>
        have hidl' : s.controlling=true ∧ g.hasControllingViewerSocket key=false := by simpa using hidl
        have hacc:=hacs key s rfl hfou hidl'.1 hidl'.2
        rw [hacc,if_neg (by decide)]
        apply h.setRunning
        · exact hagr
        · intro s' hs' hcon hid
          by_cases hkey' : s'.key=key
          · right
            right
            rw [hkey']
            rfl
          · exact (hoth s' hs' hcon hid hkey').starts

end KeptBut

namespace Kept
variable {id : ℕ}

theorem beginTransition (hwel : WellFormed g) (h : Kept g) {refused : Bool}
    (hkep : kept g (.beginTransition id refused)=true) (hste : g.beginTransition id refused=some g') :
    Kept g' := by
  unfold Gateway.beginTransition at hste
  split at hste
  next operation rest hrun hque =>
    cases hste
    have hqui:=quiet_pause (fun t => t.controlling && g.sessions.any (fun s => s.key=t.key && s.id=id)) true
    have hbut : KeptBut id ({ g with queue := Function.update g.queue id rest }.pauseControlling id) :=
      ((h.but id).setQueue rest).mapSockets hqui
    have hwel' : WellFormed ({ g with queue := Function.update g.queue id rest }.pauseControlling id) := by
      apply WellFormed.pauseControlling
      apply hwel.setQueue
      intro key hkey
      left
      rw [hque]
      exact mem_cons_of_mem _ hkey
    have hagr : Agreed id g := h.agreed hrun fun _ _ hacc => hacc
    apply hbut.operate hwel' hagr
    · intro s hs hcon hid hne
      apply (h.attendedAt hrun rfl s hs hcon hid).mono rfl rfl
      · intro hwat
        exact watched_map hqui hwat
      · intro hmem
        show _ ∈ Function.update g.queue id rest s.id
        rw [hid,hque] at hmem
        rw [hid,Function.update_self]
        exact (mem_cons.1 hmem).resolve_left fun heq => hne heq.symm
      · intro hnon
        cases hnon
    · intro key action hope hopn hrou
      show losesOwner g=false
      have hrou' : (g.routes id).isSome=true := hrou
      simpa [kept,prunes,hque,hope,hopn,hrou'] using hkep
    · intro key s hope hfou hcon hviewer
      show g.accepts s=true
      have hfou' : g.session key=some s := hfou
      have hviewer' : g.hasControllingViewerSocket key=false := by
        rw [← hviewer]
        show g.hasControllingViewerSocket key=(g.viewerSockets.map _).any _
        rw [any_map]
        unfold Gateway.hasControllingViewerSocket
        congr 1
        funext t
        dsimp only [Function.comp_apply]
        split <;> rfl
      simpa [kept,prunes,hque,hope,hfou',hcon,hviewer'] using hkep
  next => cases hste

theorem execute (h : Kept g) (hste : g.execute id=some g') : Kept g' := by
  unfold Gateway.execute at hste
  split at hste
  next key action hrun =>
    cases hste
    apply ((h.but id).setHuman action).setRunning
    · exact Function.update_self ..
    · exact h.attendedAt hrun rfl
  next key hrun =>
    cases hste
    apply ((h.but id).setHuman .release).setRunning
    · exact Function.update_self ..
    · exact h.attendedAt hrun rfl
  next key released hrun =>
    cases hste
    apply ((h.but id).setHuman .take).setRunning
    · show Function.update g.human id true id=(true || !released)
      rw [Function.update_self,Bool.true_or]
    · exact h.attendedAt hrun rfl
  next => cases hste

theorem succeed (hwel : WellFormed g) (h : Kept g) (hkep : kept g (.succeed id)=true)
    (hste : g.succeed id=some g') : Kept g' := by
  unfold Gateway.succeed at hste
  split at hste
  next key action hrun =>
    cases hste
    have hhum : g.human id=decide (action=.take) := by
      have hacc:=h.accounted id
      rw [hrun] at hacc
      exact hacc
    apply ((h.but id).setControllingSession hwel _).setRunning
    · show (g.human id=true ↔ (g.setControllingSession id _).Owned id)
      rw [owned_setControllingSession,hhum]
      cases action with
      | take =>
        have hthe : (key.any fun key => (g.session key).isSome)=true := by
          simpa [kept,prunes,hrun] using hkep
        obtain ⟨k,hk,hsom⟩ := (Option.any_eq_true _ _).1 hthe
        obtain ⟨s,hs⟩ := Option.isSome_iff_exists.1 hsom
        obtain ⟨hmem,hkey⟩ := session_some hs
        have hid:=((hwel.owner id _ k hrun hk).2 s hmem).1 hkey
        constructor
        · intro _
          exact ⟨s,hmem,hid,by rw [if_pos rfl,hk,hkey]⟩
        · intro _
          rfl
      | release =>
        constructor
        · intro htru
          cases htru
        · intro ⟨_,_,_,hnon⟩
          cases hnon
    · exact attendedAt_setControllingSession h.refused
  next => cases hste

variable {late released : Bool} {s : ViewSession}

theorem settle (h : Kept g) (hans : answered g (.settle id late)=true) (hste : g.settle id late=some g') :
    Kept g' := by
  unfold Gateway.settle at hste
  split at hste
  next hrun =>
    cases hste
    apply (h.but id).finish
    · exact h.agreed hrun fun _ _ hacc => hacc
    · exact h.attendedAt hrun rfl
  next key action executed hrun =>
    cases hste
    have hnot : executed=false ∧ late=false := by simpa [answered,hrun] using hans
    obtain ⟨rfl,rfl⟩ := hnot
    apply (h.but id).finish
    · exact h.agreed hrun fun _ _ hacc => hacc
    · exact h.attendedAt hrun rfl
  next => cases hste

variable {key : ℕ}

theorem owner_key (hwel : WellFormed g) {running : Running} (hrun : g.running id=some running)
    (hown : running.owner=some key) (hs : s ∈ g.sessions) (hcon : s.controlling=true) (hid : s.id=id) : s.key=key :=
  ((hwel.owner id running key hrun hown).2 s hs).2 hid hcon

theorem finish_unowned (h : Kept g) (huno : ¬ g.Owned id) (hagr : Agreed id g) : Kept (g.finish id) := by
  apply (h.but id).finish hagr
  intro s hs hcon hid
  exact absurd ⟨s,hs,hid,hcon⟩ huno

theorem finish_armed (h : Kept g) (hagr : Agreed id g)
    (hkey : ∀ s ∈ g.sessions, s.controlling=true → s.id=id → s.key=key) :
    Kept ((g.armAbandonedControlRelease key id).finish id) := by
  have hbut:=(h.but id).arm key
  have hwat : Watched (g.armAbandonedControlRelease key id) key := watched_arm h.refused (Or.inl rfl)
  obtain ⟨timers,heq,_⟩ := armAbandonedControlRelease_cases key id g
  rw [heq] at hbut hwat ⊢
  apply hbut.finish
  · exact hagr
  · intro s hs hcon hid
    left
    rw [hkey s hs hcon hid]
    exact hwat

theorem afterRelease (hwel : WellFormed g) (h : Kept g) (hrun : g.running id=some (.releasing key released))
    (hacc : ∀ s, g.session key=some s → released=false → g.hasControllingViewerSocket key=true →
      g.accepts s=true) : Kept (g.afterRelease id key released) := by
  have hkey : ∀ s ∈ g.sessions, s.controlling=true → s.id=id → s.key=key :=
    fun s hs hcon hid => owner_key hwel hrun rfl hs hcon hid
  have hhum : released=true → g.human id=false := by
    intro hrel
    have hacd:=h.accounted id
    rw [hrun,hrel] at hacd
    exact hacd
  have hagr : released=false → Agreed id g := by
    intro hnot
    rw [hnot] at hrun
    exact h.agreed hrun fun _ _ hacd => hacd
  have hend : ¬ g.Owned id → Kept (g.finish id) := by
    intro huno
    apply h.finish_unowned huno
    cases released with
    | false => exact hagr rfl
    | true =>
      unfold Agreed
      rw [hhum rfl]
      constructor
      · intro htru
        cases htru
      · intro hown
        exact absurd hown huno
  unfold Gateway.afterRelease
  split
  next hnon =>
    apply hend
    intro ⟨s,hs,hid,hcon⟩
    exact session_none hnon s hs (hkey s hs hcon hid)
  next s hfou =>
    obtain ⟨hs,hske⟩ := session_some hfou
    have hsid : s.id=id := ((hwel.owner id _ key hrun rfl).2 s hs).1 hske
    split
    next hnot =>
      apply hend
      intro ⟨s',hs',hid,hcon⟩
      have heq:=hwel.session_unique hs' hs ((hkey s' hs' hcon hid).trans hske.symm)
      rw [heq] at hcon
      rw [hcon] at hnot
      cases hnot
    next hcon =>
      have hcon' : s.controlling=true := by simpa using hcon
      split
      next hviewer =>
        split
        next =>
          apply (h.but id).setRunning
          · show g.human id=(false || !released)
            cases released with
            | false => exact (hagr rfl).2 ⟨s,hs,hsid,hcon'⟩
            | true => exact hhum rfl
          · intro s' hs' hc hid
            right
            right
            rw [hkey s' hs' hc hid]
            rfl
        next hnot =>
          cases released with
          | false => exact absurd (hacc s hfou rfl hviewer) hnot
          | true => exact (h.but id).relinquish hwel (hhum rfl)
      next =>
        split
        next hrel => exact (h.but id).relinquish hwel (hhum hrel)
        next hnot => exact h.finish_armed (hagr (by simpa using hnot)) hkey

theorem afterRestore (hwel : WellFormed g) (h : Kept g) {restored : Bool}
    (hrun : g.running id=some (.restoring key released restored))
    (hkep : if restored then ((g.session key).map ViewSession.controlling).getD false=true else released=true) :
    Kept (g.afterRestore id key restored) := by
  have hkey : ∀ s ∈ g.sessions, s.controlling=true → s.id=id → s.key=key :=
    fun s hs hcon hid => owner_key hwel hrun rfl hs hcon hid
  have hhum : g.human id=(restored || !released) := by
    have hacc:=h.accounted id
    rw [hrun] at hacc
    exact hacc
  unfold Gateway.afterRestore
  cases restored with
  | false =>
    rw [Bool.false_and,if_neg (by decide)]
    apply (h.but id).relinquish hwel
    have hrel : released=true := hkep
    rw [hhum,hrel]
    rfl
  | true =>
    have hcon : ((g.session key).map ViewSession.controlling).getD false=true := hkep
    rw [hcon,Bool.and_self,if_pos rfl]
    have hagr : Agreed id g := by
      obtain ⟨s,hfou,hc⟩ : ∃ s, g.session key=some s ∧ s.controlling=true := by
        cases hfou : g.session key with
        | none =>
          rw [hfou] at hcon
          cases hcon
        | some s =>
          rw [hfou] at hcon
          exact ⟨s,rfl,hcon⟩
      obtain ⟨hs,hske⟩ := session_some hfou
      have hsid : s.id=id := ((hwel.owner id _ key hrun rfl).2 s hs).1 hske
      constructor
      · intro _
        exact ⟨s,hs,hsid,hc⟩
      · intro _
        rw [hhum]
        rfl
    split
    next hviewer =>
      apply (h.but id).finish hagr
      intro s hs hc hid
      left
      rw [hkey s hs hc hid]
      exact watched_of_viewer h.refused hviewer
    next => exact h.finish_armed hagr hkey

/- A request that is answered was carried out if it succeeded, and leaves nothing behind. -/
theorem giveUp_answered {a : HumanAction} {executed ok late : Bool} (hok : ¬ (ok && !executed)=true)
    (hans : ok=true ∨ executed=false ∧ late=false) :
    executed=ok ∧ g.giveUp id a executed late=g := by
  cases ok with
  | true =>
    have hexe : executed=true := by simpa using hok
    rw [hexe]
    exact ⟨rfl,rfl⟩
  | false =>
    obtain ⟨rfl,rfl⟩ := hans.resolve_left (by decide)
    exact ⟨rfl,rfl⟩

theorem resolve (hwel : WellFormed g) (h : Kept g) {ok : Bool} (hans : answered g (.resolve id ok late)=true)
    (hkep : kept g (.resolve id ok late)=true) (hste : g.resolve id ok late=some g') : Kept g' := by
  unfold Gateway.resolve at hste
  split at hste
  next key executed hrun =>
    split at hste
    next => cases hste
    next hok =>
      cases hste
      obtain ⟨hexe,hsam⟩ := @giveUp_answered g id .release executed ok late hok
        (by simpa [answered,hrun] using hans)
      rw [hsam]
      rw [hexe] at hrun
      apply h.afterRelease hwel hrun
      intro s hfou hnot hviewer
      rw [hnot] at hkep hrun
      simpa [kept,prunes,hrun,hfou,hviewer] using hkep
  next key released executed hrun =>
    split at hste
    next => cases hste
    next hok =>
      cases hste
      obtain ⟨hexe,hsam⟩ := @giveUp_answered g id .take executed ok late hok
        (by simpa [answered,hrun] using hans)
      rw [hsam]
      rw [hexe] at hrun
      apply h.afterRestore hwel hrun
      have hcas : (if ok then ((g.session key).map ViewSession.controlling).getD false else released)=true := by
        simpa [kept,prunes,hrun] using hkep
      cases ok with
      | false => exact hcas
      | true => exact hcas
  next => cases hste

/- Sessions change, but no key and no computer of one, and none becomes controlling. -/
theorem openSession (h : Kept g) {tokenHash : String} (hste : g.openSession id tokenHash=some g') : Kept g' := by
  unfold Gateway.openSession at hste
  split at hste
  next =>
    split at hste
    next =>
      cases hste
      have hmem : ∀ s ∈ g.sessions++[⟨g.nextKey,id,tokenHash,false,false⟩], s.controlling=true →
          s ∈ g.sessions := by
        intro s hs hcon
        rcases mem_append.1 hs with hold | hnew
        · exact hold
        · rw [mem_singleton.1 hnew] at hcon
          cases hcon
      exact
        { h with
          accounted := fun id' => by
            apply (h.accounted id').congr
            · intro ⟨s,hs,hid,hcon⟩
              exact ⟨s,hmem s hs hcon,hid,hcon⟩
            · intro _ ⟨s,hs,hmat⟩
              exact ⟨s,mem_append_left _ hs,hmat⟩
          attended := fun s hs hcon => h.attended s (hmem s hs hcon) hcon }
    next => cases hste
  next => cases hste

theorem expire (h : Kept g) (key : ℕ) : Kept (g.expire key) := by
  have hmem : ∀ s ∈ (g.expire key).sessions, ∃ old ∈ g.sessions,
      s.key=old.key ∧ s.id=old.id ∧ s.controlling=old.controlling := by
    intro s hs
    obtain ⟨old,hold,rfl⟩ := mem_map.1 hs
    refine ⟨old,hold,?_⟩
    split <;> exact ⟨rfl,rfl,rfl⟩
  exact
    { h with
      accounted := fun id' => by
        apply (h.accounted id').congr
        · intro ⟨s,hs,hid,hcon⟩
          obtain ⟨old,hold,_,hid',hc⟩ := hmem s hs
          exact ⟨old,hold,hid'.symm.trans hid,hc.symm.trans hcon⟩
        · intro _ ⟨s,hs,hid,hcon⟩
          refine ⟨_,mem_map_of_mem hs,?_⟩
          split
          · exact ⟨hid,hcon⟩
          · exact ⟨hid,hcon⟩
      attended := fun s hs hcon => by
        obtain ⟨old,hold,hkey,hid,hc⟩ := hmem s hs
        rw [hid]
        exact (h.attended old hold (hc.symm.trans hcon)).mono hkey hid (fun hw => hw) (fun hq => hq) fun hr => hr }

theorem serialize (h : Kept g) (operation : Operation) : Kept (g.serializeControlTransition id operation) :=
  { h with
    attended := fun s hs hcon => by
      apply (h.attended s hs hcon).mono rfl rfl
      · intro hwat
        exact hwat
      · intro hque
        show _ ∈ Function.update g.queue id (g.queue id++[operation]) s.id
        by_cases heq : s.id=id
        · rw [heq] at hque ⊢
          rw [Function.update_self]
          exact mem_append_left _ hque
        · rw [Function.update_of_ne heq]
          exact hque
      · intro hrel
        exact hrel }

theorem requestControl (hwel : WellFormed g) (h : Kept g) {action : HumanAction}
    (hkep : kept g (.requestControl id key action)=true) : Kept (g.requestControl id key action) := by
  unfold Gateway.requestControl
  split
  next hviewer =>
    have hval : Kept (g.validViewSession key id).1 := by
      apply h.pruneExpired hwel
      simpa [kept,prunes,hviewer] using hkep
    dsimp only
    split
    · exact hval.serialize _
    · exact hval
  next => exact h

theorem upgrade (hwel : WellFormed g) (h : Kept g) (hkep : kept g (.upgrade id key)=true) :
    Kept (g.upgrade id key) := by
  unfold Gateway.upgrade
  split
  next hviewer =>
    have hval : Kept (g.validViewSession key id).1 := by
      apply h.pruneExpired hwel
      simpa [kept,prunes,hviewer] using hkep
    dsimp only
    split
    · exact hval
    next s hs =>
      have hrefused : ∀ t ∈ (g.validViewSession key id).1.viewerSockets ++
          [⟨(g.validViewSession key id).1.nextSocket,key,id,s.controlling,.waiting,true,false⟩],
          t.controls → t.phase≠.refused := by
        intro t ht hcon
        rcases mem_append.1 ht with hold | hnew
        · exact hval.refused t hold hcon
        · rw [mem_singleton.1 hnew]
          intro hpha
          cases hpha
      split
      next hcog =>
        exact
          { hval with
            attended := fun s' hs' hc => by
              refine (hval.attended s' hs' hc).watched ?_ rfl
              intro hwat
              by_cases hkey : s'.key=key
              · left
                refine ⟨_,mem_append_right _ (mem_singleton_self _),hkey.symm,hcog,?_⟩
                intro hpha
                cases hpha
              · rcases hwat with ⟨t,ht,hmat⟩ | ⟨timer,htimer,htke⟩
                · exact Or.inl ⟨t,mem_append_left _ ht,hmat⟩
                · right
                  refine ⟨timer,mem_filter.2 ⟨htimer,?_⟩,htke⟩
                  simpa [htke] using hkey
            refused := hrefused }
      next =>
        exact
          { hval with
            attended := fun s' hs' hc => by
              refine (hval.attended s' hs' hc).watched ?_ rfl
              intro hwat
              rcases hwat with ⟨t,ht,hmat⟩ | htimer
              · exact Or.inl ⟨t,mem_append_left _ ht,hmat⟩
              · exact Or.inr htimer
            refused := hrefused }
  next => exact h

variable {socket : ℕ}

/- A socket changes; where it may stop watching its session, a timer is armed. -/
theorem setSocket (h : Kept g)
    (hf : ∀ t ∈ g.viewerSockets, t.socket=socket → (f t).key=t.key ∧ ((f t).controls → (f t).phase≠.refused))
    (hwas : ∀ t ∈ g.viewerSockets, t.socket=socket → ∀ s ∈ g.sessions, s.key=t.key → s.controlling=true →
      t.controlling=true → t.phase≠.refused →
      (f t).controlling=true ∧ (f t).phase≠.refused ∨ ∃ timer ∈ g.abandonedControlTimers, timer.key=s.key) :
    Kept (g.setSocket socket f) :=
  { h with
    attended := fun s hs hcog => by
      refine (h.attended s hs hcog).watched ?_ rfl
      intro hwat
      rcases hwat with ⟨t,ht,hkey,hc,hpha⟩ | htimer
      · by_cases heq : t.socket=socket
        · rcases hwas t ht heq s hs hkey.symm hcog hc hpha with ⟨hc',hpha'⟩ | htimer
          · left
            refine ⟨_,mem_map_of_mem ht,?_⟩
            rw [if_pos heq]
            exact ⟨(hf t ht heq).1.trans hkey,hc',hpha'⟩
          · exact Or.inr htimer
        · left
          refine ⟨_,mem_map_of_mem ht,?_⟩
          rw [if_neg heq]
          exact ⟨hkey,hc,hpha⟩
      · exact Or.inr htimer
    refused := fun t ht hcon => by
      obtain ⟨old,hold,rfl⟩ := mem_map.1 ht
      split at hcon
      next heq =>
        rw [if_pos heq]
        exact (hf old hold heq).2 hcon
      next hne =>
        rw [if_neg hne]
        exact h.refused old hold hcon }

theorem refuse (h : Kept g)
    (hsoc : ∀ t ∈ g.viewerSockets, t.socket=socket → t.controlling=true → t.destroyed=true ∧
      ∀ s ∈ g.sessions, s.key=t.key → ∃ timer ∈ g.abandonedControlTimers, timer.key=s.key) :
    Kept (g.setSocket socket fun t => { t with phase := .refused }) := by
  apply h.setSocket
  · intro t ht heq
    refine ⟨rfl,fun hcon => ?_⟩
    have hdes:=(hsoc t ht heq hcon.1).1
    have hali : t.destroyed=false := hcon.2
    rw [hdes] at hali
    cases hali
  · intro t ht heq s hs hkey _ hc _
    exact Or.inr ((hsoc t ht heq hc).2 s hs hkey)

theorem reject (h : Kept g) (socket : ℕ) : Kept (g.setSocket socket fun t => { t with phase := .rejected }) := by
  apply h.setSocket
  · intro t _ _
    exact ⟨rfl,fun _ hpha => by cases hpha⟩
  · intro t _ _ s _ _ _ hc _
    exact Or.inl ⟨hc,fun hpha => by cases hpha⟩

/- A session that is not valid any more was closed by `pruneExpired`, with a timer armed. -/
theorem pruned_stale (hwel : WellFormed g) (hs : s ∈ g.pruneExpired.sessions) (hsta : g.stale s=true) :
    ∃ timer ∈ g.pruneExpired.abandonedControlTimers, timer.key=s.key := by
  obtain ⟨hmem,hkep⟩ := mem_filter.1 hs
  cases hany : g.abandonedControlTimers.any (·.key=s.key) with
  | true =>
    obtain ⟨timer,htim,hkey⟩ := any_eq_true.1 hany
    have htke : timer.key=s.key := by simpa using hkey
    refine ⟨timer,mem_append_left _ (mem_filter.2 ⟨htim,?_⟩),htke⟩
    simp only [Bool.not_eq_true',any_eq_false,Bool.and_eq_true,decide_eq_true_eq,not_and]
    intro s₀ hs₀ hk₀
    rw [hwel.session_unique hs₀ hmem (hk₀.trans htke)]
    simpa using hkep
  | false =>
    refine ⟨⟨s.key,s.id⟩,mem_append_right _ (mem_map.2 ⟨s,mem_filter.2 ⟨hmem,?_⟩,rfl⟩),rfl⟩
    rw [hsta,hany]
    simpa using hkep

theorem stale_of_invalid (hwel : WellFormed g) (hs : s ∈ g.sessions) (hnon : (g.validViewSession s.key s.id).2=none) :
    g.stale s=true := by
  cases hsta : g.stale s with
  | true => rfl
  | false =>
    exfalso
    have hpru : s ∈ g.pruneExpired.sessions :=
      mem_filter.2 ⟨hs,by simp [Gateway.dropped,hsta]⟩
    have hfou:=hwel.pruneExpired.session_mem hpru
    have hval : g.accepts s=true ∧ s.expired=false := by
      simp only [Gateway.stale,Bool.or_eq_false_iff,Bool.not_eq_false'] at hsta
      exact ⟨hsta.2,hsta.1⟩
    have hsom : (g.validViewSession s.key s.id).2=some s := by
      apply Option.filter_eq_some_iff.2
      refine ⟨hfou,?_⟩
      have hacc : g.pruneExpired.accepts s=true := hval.1
      simp [hacc,hval.2]
    rw [hnon] at hsom
    cases hsom

theorem viewTarget_of_hasViewPorts {route : RuntimeRoute} (hviewer : hasViewPorts route=true) (controlling : Bool) :
    ∃ target, viewTarget route controlling=some target := by
  simp only [hasViewPorts,Bool.and_eq_true,Option.isSome_iff_exists] at hviewer
  obtain ⟨⟨port,hpor⟩,controlPort,hcontrolPort⟩ := hviewer
  cases controlling with
  | true => exact ⟨_,by rw [viewTarget,if_pos rfl,hcontrolPort]; rfl⟩
  | false => exact ⟨_,by rw [viewTarget,if_neg (by decide),hpor]; rfl⟩

theorem connect (hwel : WellFormed g) (hfen : Fenced g) (h : Kept g)
    (hkep : kept g (.connect socket)=true) (hste : g.connect socket=some g') : Kept g' := by
  unfold Gateway.connect at hste
  split at hste
  next t ht =>
    obtain ⟨htme,rfl⟩ := findSocket_some ht
    have hsam : ∀ old ∈ g.viewerSockets, old.socket=t.socket → old=t :=
      fun old hold heq => hwel.socket_unique hold htme heq
    split at hste
    next hope =>
      split at hste
      next hrou =>
        cases hste
        have hnot : t.controlling=false := by
          simpa [kept,prunes,ht,hrou] using hkep
        apply h.refuse
        intro old hold heq hc
        rw [hsam old hold heq,hnot] at hc
        cases hc
      next route hrou =>
        have hspl : losesOwner g=false ∧ (t.controlling=true → hasViewPorts route=true ∨
            (g.validViewSession t.key t.id).2=none) := by
          simpa [kept,prunes,ht,hrou,or_iff_not_imp_left] using hkep
        have hval : Kept (g.validViewSession t.key t.id).1 := h.pruneExpired hwel hspl.1
        dsimp only at hste
        split at hste
        next hnone =>
          cases hste
          apply hval.refuse
          intro old hold heq hc
          obtain ⟨hold_key,_,hold_controlling⟩ := Fenced.pruned_socket hwel htme hold heq
          obtain ⟨s₀,hs₀,hke₀,hid₀,_⟩ := hfen.owned t htme ⟨hold_controlling.symm.trans hc,hope.2.1⟩
          have hsta : g.stale s₀=true := by
            apply stale_of_invalid hwel hs₀
            rw [hke₀,hid₀]
            exact hnone
          constructor
          · obtain ⟨first,hfir,rfl⟩ := mem_map.1 hold
            have hfirst_socket : first.socket=t.socket := by
              rw [← heq]
              split <;> rfl
            rw [hsam first hfir hfirst_socket,if_pos]
            exact any_eq_true.2 ⟨s₀,hs₀,by simp [hke₀,hsta]⟩
          · intro s hs hkey
            have huni:=hwel.session_unique (mem_filter.1 hs).1 hs₀
              (hkey.trans (hold_key.trans hke₀.symm))
            apply pruned_stale hwel hs
            rw [huni]
            exact hsta
        next s hs =>
          obtain ⟨hmem,hkey,hid,_,_⟩ := validViewSession_some hs
          split at hste
          next target _ _ =>
            cases hste
            apply hval.setSocket
            · intro old hold heq
              exact ⟨rfl,fun _ hpha => by cases hpha⟩
            · intro old hold heq s' hs' hkey' hcon _ _
              obtain ⟨hold_key,_,_⟩ := Fenced.pruned_socket hwel htme hold heq
              have huni:=(hwel.pruneExpired).session_unique hs' hmem
                (hkey'.trans (hold_key.trans hkey.symm))
              rw [huni] at hcon
              exact Or.inl ⟨hcon,fun hpha => by cases hpha⟩
          next hnot =>
            cases hste
            apply hval.refuse
            intro old hold heq hc
            obtain ⟨_,_,hold_controlling⟩ := Fenced.pruned_socket hwel htme hold heq
            rcases hspl.2 (hold_controlling.symm.trans hc) with hviewer | hnone
            · obtain ⟨target,htar⟩ := viewTarget_of_hasViewPorts hviewer s.controlling
              exact absurd htar (hnot target hviewer)
            · rw [hs] at hnone
              cases hnone
    next => cases hste
  next => cases hste

theorem connected (hwel : WellFormed g) (h : Kept g)
    (hkep : kept g (.connected socket)=true) (hste : g.connected socket=some g') : Kept g' := by
  unfold Gateway.connected at hste
  split at hste
  next t ht =>
    split at hste
    next target hpha =>
      split at hste
      next =>
        split at hste
        next =>
          cases hste
          exact h.reject socket
        next route hrou =>
          have hval : Kept (g.validViewSession t.key t.id).1 := by
            apply h.pruneExpired hwel
            simpa [kept,prunes,ht,hrou] using hkep
          dsimp only at hste
          split at hste
          next =>
            cases hste
            exact hval.reject socket
          next s hs =>
            split at hste
            next =>
              cases hste
              apply hval.setSocket
              · intro old _ _
                exact ⟨rfl,fun _ hpha => by cases hpha⟩
              · intro old _ _ _ _ _ _ hc _
                exact Or.inl ⟨hc,fun hpha => by cases hpha⟩
            next =>
              cases hste
              exact hval.reject socket
      next => cases hste
    next => cases hste
  next => cases hste

theorem disconnect (h : Kept g) (socket : ℕ) : Kept (g.disconnect socket) :=
  { h with
    attended := fun s hs hcon => by
      exact (h.attended s hs hcon).watched (watched_map (quiet_destroy _)) rfl
    refused := refused_map (quiet_destroy _) h.refused }

theorem closed (hwel : WellFormed g) (h : Kept g) (hste : g.closed socket=some g') : Kept g' := by
  unfold Gateway.closed at hste
  split at hste
  next t ht =>
    obtain ⟨htme,rfl⟩ := findSocket_some ht
    split at hste
    next =>
      cases hste
      have hrefused : ∀ old ∈ g.viewerSockets.filter (·.socket≠t.socket), old.controls → old.phase≠.refused :=
        fun old hold => h.refused old (mem_filter.1 hold).1
      have hoth : ∀ {key}, Watched g key → (key=t.key → t.controlling=false) →
          Watched { g with viewerSockets := g.viewerSockets.filter (·.socket≠t.socket) } key := by
        intro key hwat hnot
        rcases hwat with ⟨old,hold,hkey,hc,hpha⟩ | htimer
        · left
          refine ⟨old,mem_filter.2 ⟨hold,?_⟩,hkey,hc,hpha⟩
          have hne : old.socket≠t.socket := by
            intro heq
            rw [hwel.socket_unique hold htme heq] at hkey hc
            rw [hnot hkey.symm] at hc
            cases hc
          simpa using hne
        · exact Or.inr htimer
      split
      next s hfou =>
        obtain ⟨hs,hkey⟩ := session_some hfou
        split
        next =>
          have hwat : ∀ {key}, Watched g key → Watched (Gateway.armAbandonedControlRelease s.key s.id
              { g with viewerSockets := g.viewerSockets.filter (·.socket≠t.socket) }) key := by
            intro key hw
            apply watched_arm hrefused
            by_cases heq : key=s.key
            · exact Or.inl heq
            · exact Or.inr (hoth hw fun hkey' => absurd (hkey'.trans hkey.symm) heq)
          obtain ⟨timers,heq,_⟩ := armAbandonedControlRelease_cases s.key s.id
            { g with viewerSockets := g.viewerSockets.filter (·.socket≠t.socket) }
          rw [heq] at hwat ⊢
          exact
            { h with
              attended := fun s' hs' hcon => by
                exact (h.attended s' hs' hcon).watched hwat rfl
              refused := hrefused }
        next hnot =>
          exact
            { h with
              attended := fun s' hs' hcon => by
                refine (h.attended s' hs' hcon).watched ?_ rfl
                intro hwat
                apply hoth hwat
                intro hkey'
                rw [hwel.session_unique hs' hs (hkey'.trans hkey.symm)] at hcon
                simpa [hcon] using hnot
              refused := hrefused }
      next hnon =>
        exact
          { h with
            attended := fun s' hs' hcon => by
              refine (h.attended s' hs' hcon).watched ?_ rfl
              intro hwat
              apply hoth hwat
              intro hkey'
              exact absurd hkey' (session_none hnon s' hs')
            refused := hrefused }
    next => cases hste
  next => cases hste

theorem abandonedTimerFires (hwel : WellFormed g) (h : Kept g) {timer : AbandonedTimer}
    (hste : g.abandonedTimerFires timer=some g') : Kept g' := by
  unfold Gateway.abandonedTimerFires at hste
  split at hste
  next hmem =>
    cases hste
    exact
      { h with
        attended := fun s hs hcon => by
          show Attended _ s (g.running s.id)
          rcases h.attended s hs hcon with (hsoc | ⟨old,hold,hkey⟩) | hqueue | hreleases
          · exact Or.inl (Or.inl hsoc)
          · by_cases heq : old=timer
            · right
              left
              rw [heq] at hkey
              have hid:=(hwel.timer timer hmem).2 s hs hkey.symm
              show _ ∈ Function.update g.queue timer.id (g.queue timer.id++[.abandoned timer.key]) s.id
              rw [hid,Function.update_self,hkey]
              exact mem_append_right _ (mem_singleton_self _)
            · left
              right
              exact ⟨old,(mem_erase_of_ne heq).2 hold,hkey⟩
          · right
            left
            show _ ∈ Function.update g.queue timer.id (g.queue timer.id++[.abandoned timer.key]) s.id
            by_cases heq : s.id=timer.id
            · rw [heq] at hqueue ⊢
              rw [Function.update_self]
              exact mem_append_left _ hqueue
            · rw [Function.update_of_ne heq]
              exact hqueue
          · exact Or.inr (Or.inr hreleases) }
  next => cases hste

theorem step (hwel : WellFormed g) (hfen : Fenced g) (h : Kept g) {action : GatewayAction}
    (hans : answered g action=true) (hkep : kept g action=true) (hste : gatewayStep g action=some g') :
    Kept g' := by
  cases action with
  | setRoute id route =>
    cases hste
    exact { h with }
  | openSession id tokenHash => exact h.openSession hste
  | expire key =>
    cases hste
    exact h.expire key
  | pruneExpired =>
    cases hste
    apply h.pruneExpired hwel
    simpa [kept,prunes] using hkep
  | requestControl id key action =>
    cases hste
    exact h.requestControl hwel hkep
  | operatorRelease id =>
    simp only [gatewayStep] at hste
    split at hste
    · cases hste
      exact h.serialize _
    · cases hste
  | beginTransition id refused => exact h.beginTransition hwel hkep hste
  | execute id => exact h.execute hste
  | succeed id => exact h.succeed hwel hkep hste
  | settle id late => exact h.settle hans hste
  | resolve id ok late => exact h.resolve hwel hans hkep hste
  | executeLate index =>
    obtain ⟨request,hreq,_⟩ := Option.map_eq_some_iff.1 hste
    rw [h.late] at hreq
    cases hreq
  | upgrade id key =>
    cases hste
    exact h.upgrade hwel hkep
  | connect socket => exact h.connect hwel hfen hkep hste
  | connected socket => exact h.connected hwel hkep hste
  | disconnect socket =>
    cases hste
    exact h.disconnect socket
  | closed socket => exact h.closed hwel hste
  | abandonedTimerFires timer => exact h.abandonedTimerFires hwel hste

theorem start (routes : ℕ → Option RuntimeRoute) : Kept (Gateway.start routes) where
  accounted := fun id => by
    constructor
    · intro htru
      cases htru
    · intro ⟨s,hs,_⟩
      exact absurd hs not_mem_nil
  attended := fun s hs => absurd hs not_mem_nil
  refused := fun t ht => absurd ht not_mem_nil
  late := rfl

end Kept

theorem reported_of_answered (hlat : g.late=[]) {action : GatewayAction} (hans : answered g action=true) :
    reported g action=true := by
  cases action with
  | settle id late =>
    simp only [reported]
    split
    next key hrun => simp [answered,hrun] at hans
    next => rfl
  | resolve id ok late =>
    simp only [reported]
    split
    next key hrun =>
      have hok : ok=true := by simpa [answered,hrun] using hans
      rw [hok,Bool.true_or,Bool.true_or,Bool.true_or]
    next => rfl
  | executeLate index => simp [reported,hlat]
  | _ => rfl

/-- The control of the computer belongs to one session at most, which has a viewer or an
armed timer, and the computer is in human control exactly if there is one. -/
structure Unorphaned (id : ℕ) (g : Gateway) : Prop where
  single : ∀ s ∈ g.sessions, ∀ s' ∈ g.sessions, s.id=id → s'.id=id →
    s.controlling=true → s'.controlling=true → s=s'
  agreed : g.human id=true ↔ ∃ s ∈ g.sessions, s.id=id ∧ s.controlling=true
  watched : ∀ s ∈ g.sessions, s.id=id → s.controlling=true → Watched g s.key

theorem human_control_never_orphaned {g₀ g : Gateway} {actions : List GatewayAction}
    (h₀ : gatewaySystem.initial g₀)
    (hr : gatewaySystem.RunWhere (fun g action => (answered g action && kept g action)=true) g₀ actions g)
    (id : ℕ) (hidle : g.transitioning id=false) : Unorphaned id g := by
  obtain ⟨routes,rfl⟩ := h₀
  have hinv : WellFormed g ∧ Fenced g ∧ Kept g := by
    apply hr.preserves (P := fun g => WellFormed g ∧ Fenced g ∧ Kept g)
    · intro g action g' ⟨hwel,hfen,h⟩ hbot hste
      obtain ⟨hans,hkep⟩ := Bool.and_eq_true_iff.1 hbot
      have hrep:=reported_of_answered h.late hans
      exact ⟨hwel.step hste,hfen.step hwel hrep hste,h.step hwel hfen hans hkep hste⟩
    · exact ⟨.start routes,.start routes,.start routes⟩
  obtain ⟨hwel,_,h⟩ := hinv
  have hnon : g.running id=none ∧ g.queue id=[] := by
    simpa [Gateway.transitioning] using hidle
  exact
    { single := fun s hs s' hs' hid hid' hc hc' =>
        hwel.session_unique hs hs' (hwel.single s hs s' hs' (hid.trans hid'.symm) hc hc')
      agreed := h.agreed hnon.1 fun _ _ hacc => hacc
      watched := fun s hs hid hcon => by
        rcases h.attendedAt hnon.1 rfl s hs hcon hid with hwat | hqueue | hreleases
        · exact hwat
        · rw [hid,hnon.2] at hqueue
          exact absurd hqueue not_mem_nil
        · cases hreleases }

/-- A viewer takes the control, connects and hangs up: its session keeps the control. -/
theorem human_control_never_orphaned_run :
    ∃ g₀ g, gatewaySystem.initial g₀ ∧
      gatewaySystem.RunWhere (fun g action => (answered g action && kept g action)=true) g₀
        (demoTake++[.disconnect 0,.closed 0]) g ∧
      g.human 0=true ∧ Unorphaned 0 g := by
  have hexe : (gatewaySystem.execWhere (fun g action => answered g action && kept g action)
      (Gateway.start demoRoutes) (demoTake++[.disconnect 0,.closed 0])).map (fun g =>
      (g.human 0,g.transitioning 0))=some (true,false) := by decide
  obtain ⟨g,hrun,hsta⟩ := Option.map_eq_some_iff.1 hexe
  have hhum : g.human 0=true := congrArg Prod.fst hsta
  have hidl : g.transitioning 0=false := congrArg Prod.snd hsta
  have hwhe:=TransitionSystem.runWhere_of_exec hrun
  exact ⟨_,g,⟨demoRoutes,rfl⟩,hwhe,hhum,human_control_never_orphaned ⟨demoRoutes,rfl⟩ hwhe 0 hidl⟩

/-- A viewer comes back while its abandoned control is being released; the release fails
and so does the take that should restore the control: the computer stays in human control. -/
theorem human_control_orphaned :
    ¬ ∀ g₀ g actions, gatewaySystem.initial g₀ →
      gatewaySystem.RunWhere (fun g action => answered g action=true) g₀ actions g →
      ∀ id, g.transitioning id=false → Unorphaned id g := by
  intro h
  have hexe : (gatewaySystem.execWhere answered (Gateway.start demoRoutes)
      [.openSession 0 "owner",.requestControl 0 0 .take,.beginTransition 0 false,.execute 0,.succeed 0,
        .settle 0 false,.abandonedTimerFires ⟨0,0⟩,.beginTransition 0 false,.upgrade 0 0,
        .resolve 0 false false,.resolve 0 false false]).map (fun g =>
      (g.human 0,g.transitioning 0,g.sessions.any (·.controlling)))=some (true,false,false) := by decide
  obtain ⟨g,hrun,hsta⟩ := Option.map_eq_some_iff.1 hexe
  simp only [Prod.mk.injEq] at hsta
  obtain ⟨hhum,hidl,hnon⟩ := hsta
  have huno:=h _ g _ ⟨demoRoutes,rfl⟩ (TransitionSystem.runWhere_of_exec hrun) 0 hidl
  obtain ⟨s,hs,_,hcon⟩ := huno.agreed.1 hhum
  have := any_eq_false.1 hnon s hs
  exact this hcon

end Qubicl.Viewing
