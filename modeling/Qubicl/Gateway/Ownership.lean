import Qubicl.Gateway.Viewers

/-!
# Sessions, sockets and who may control a computer

What every operation of the gateway keeps: keys are unique, at most one session of a
computer is controlling, and while a take or an abandoned release runs no other session
than its own is.
-/

namespace Qubicl.Viewing
open Foundation Gateway List

variable {g g' : Gateway}

def Running.owner : Running → Option ℕ
  | .proxying key .take _ => key
  | .releasing key _ => some key
  | .restoring key _ _ => some key
  | _ => none

structure WellFormed (g : Gateway) : Prop where
  keys : (g.sessions.map ViewSession.key).Nodup
  fresh : ∀ s ∈ g.sessions, s.key<g.nextKey
  sockets : (g.viewerSockets.map ViewerSocket.socket).Nodup
  socketFresh : ∀ t ∈ g.viewerSockets, t.socket<g.nextSocket
  single : ∀ s ∈ g.sessions, ∀ s' ∈ g.sessions, s.id=s'.id → s.controlling=true →
    s'.controlling=true → s.key=s'.key
  timer : ∀ timer ∈ g.abandonedControlTimers, timer.key<g.nextKey ∧
    ∀ s ∈ g.sessions, s.key=timer.key → s.id=timer.id
  queued : ∀ id key, Operation.abandoned key ∈ g.queue id → key<g.nextKey ∧
    ∀ s ∈ g.sessions, s.key=key → s.id=id
  owner : ∀ id running key, g.running id=some running → running.owner=some key →
    key<g.nextKey ∧ ∀ s ∈ g.sessions,
      (s.key=key → s.id=id) ∧ (s.id=id → s.controlling=true → s.key=key)

variable {s : ViewSession}

theorem session_some {key : ℕ} (h : g.session key=some s) : s ∈ g.sessions ∧ s.key=key :=
  ⟨mem_of_find?_eq_some h,by simpa using find?_some h⟩

theorem session_none {key : ℕ} (h : g.session key=none) : ∀ s ∈ g.sessions, s.key≠key := by
  intro s hs
  have := find?_eq_none.1 h s hs
  simpa using this

theorem WellFormed.session_unique (h : WellFormed g) {s' : ViewSession} (hs : s ∈ g.sessions) (hs' : s' ∈ g.sessions)
    (hkey : s.key=s'.key) : s=s' :=
  inj_on_of_nodup_map h.keys hs hs' hkey

theorem WellFormed.session_mem (h : WellFormed g) (hs : s ∈ g.sessions) : g.session s.key=some s := by
  cases hfou : g.session s.key with
  | none => exact absurd rfl (session_none hfou s hs)
  | some s' =>
    obtain ⟨hs',hkey⟩ := session_some hfou
    rw [h.session_unique hs' hs hkey]

theorem findSocket_some {socket : ℕ} {t : ViewerSocket} (h : g.findSocket socket=some t) :
    t ∈ g.viewerSockets ∧ t.socket=socket :=
  ⟨mem_of_find?_eq_some h,by simpa using find?_some h⟩

theorem WellFormed.socket_unique (h : WellFormed g) {t t' : ViewerSocket} (ht : t ∈ g.viewerSockets)
    (ht' : t' ∈ g.viewerSockets) (hsoc : t.socket=t'.socket) : t=t' :=
  inj_on_of_nodup_map h.sockets ht ht' hsoc

theorem validViewSession_some {key id : ℕ} (h : (g.validViewSession key id).2=some s) :
    s ∈ g.pruneExpired.sessions ∧ s.key=key ∧ s.id=id ∧ g.accepts s=true ∧ s.expired=false := by
  obtain ⟨hfou,hval⟩ := Option.filter_eq_some_iff.1 h
  obtain ⟨hs,hkey⟩ := session_some hfou
  simp only [Bool.and_eq_true,decide_eq_true_eq,Bool.not_eq_true'] at hval
  exact ⟨hs,hkey,hval.1.1,hval.1.2,hval.2⟩

theorem armAbandonedControlRelease_cases (key id : ℕ) (g : Gateway) :
    ∃ timers, g.armAbandonedControlRelease key id = { g with abandonedControlTimers := timers } ∧
      (∀ timer ∈ timers, timer=⟨key,id⟩ ∨ timer ∈ g.abandonedControlTimers) ∧
      (∀ timer ∈ g.abandonedControlTimers, timer.key≠key → timer ∈ timers) ∧
      (g.hasControllingViewerSocket key=true ∨ ⟨key,id⟩ ∈ timers) := by
  have hkep : ∀ timer ∈ g.abandonedControlTimers, timer.key≠key →
      timer ∈ g.abandonedControlTimers.filter (·.key≠key) := by
    intro timer hmem hne
    exact mem_filter.2 ⟨hmem,by simpa using hne⟩
  unfold armAbandonedControlRelease
  dsimp only
  split
  next hvie =>
    refine ⟨_,rfl,fun timer hmem => Or.inr (mem_filter.1 hmem).1,hkep,Or.inl hvie⟩
  next =>
    refine ⟨_,rfl,fun timer hmem => ?_,fun timer hmem hne => mem_append_left _ (hkep timer hmem hne),
      Or.inr (mem_append_right _ (mem_singleton_self _))⟩
    rcases mem_append.1 hmem with hold | hnew
    · exact Or.inr (mem_filter.1 hold).1
    · exact Or.inl (mem_singleton.1 hnew)

theorem giveUp_same (id : ℕ) (action : HumanAction) (executed late : Bool) (g : Gateway) :
    ∃ requests, g.giveUp id action executed late = { g with late := requests } := by
  unfold giveUp
  split
  · exact ⟨_,rfl⟩
  · exact ⟨g.late,rfl⟩

namespace WellFormed

variable {s : ViewSession} {id key socket : ℕ} {operation : Operation}

section
variable (h : WellFormed g)
include h

theorem mapSockets (f : ViewerSocket → ViewerSocket) (hf : ∀ t, (f t).socket=t.socket) :
    WellFormed { g with viewerSockets := g.viewerSockets.map f } :=
  { h with
    sockets := by
      have hmap : (g.viewerSockets.map f).map ViewerSocket.socket=g.viewerSockets.map ViewerSocket.socket := by
        rw [map_map]
        exact map_congr_left fun t _ => hf t
      rw [hmap]
      exact h.sockets
    socketFresh := fun t ht => by
      obtain ⟨old,hold,rfl⟩ := mem_map.1 ht
      rw [hf]
      exact h.socketFresh old hold }

theorem destroySockets (p : ViewerSocket → Bool) : WellFormed (g.destroySockets p) := by
  apply h.mapSockets
  intro t
  split <;> rfl

theorem timers {timers : List AbandonedTimer}
    (htim : ∀ timer ∈ timers, timer ∈ g.abandonedControlTimers ∨
      timer.key<g.nextKey ∧ ∀ s ∈ g.sessions, s.key=timer.key → s.id=timer.id) :
    WellFormed { g with abandonedControlTimers := timers } :=
  { h with
    timer := fun timer hmem => by
      rcases htim timer hmem with hold | hnew
      · exact h.timer timer hold
      · exact hnew }

theorem clear (key : ℕ) : WellFormed (g.clearAbandonedControlRelease key) :=
  h.timers fun _ hmem => Or.inl (mem_filter.1 hmem).1

theorem arm (hs : s ∈ g.sessions) : WellFormed (g.armAbandonedControlRelease s.key s.id) := by
  obtain ⟨timers,heq,hmem,_⟩ := armAbandonedControlRelease_cases s.key s.id g
  rw [heq]
  apply h.timers
  intro timer htim
  rcases hmem timer htim with rfl | hold
  · right
    refine ⟨h.fresh s hs,fun s' hs' hkey => ?_⟩
    rw [h.session_unique hs' hs hkey]
  · exact Or.inl hold

theorem setRunning (id : ℕ) {running : Option Running}
    (hown : ∀ r key, running=some r → r.owner=some key → key<g.nextKey ∧
      ∀ s ∈ g.sessions, (s.key=key → s.id=id) ∧ (s.id=id → s.controlling=true → s.key=key)) :
    WellFormed (g.setRunning id running) :=
  { h with
    owner := fun id' r key hrun hkey => by
      have hrun' : Function.update g.running id running id'=some r := hrun
      by_cases heq : id'=id
      · subst heq
        rw [Function.update_self] at hrun'
        exact hown r key hrun' hkey
      · rw [Function.update_of_ne heq] at hrun'
        exact h.owner id' r key hrun' hkey }

theorem pauseControlling (id : ℕ) : WellFormed (g.pauseControlling id) := by
  apply h.mapSockets
  intro t
  split <;> rfl

theorem resumeControlling (id : ℕ) : WellFormed (g.resumeControlling id) := by
  apply h.mapSockets
  intro t
  split <;> rfl

theorem finish (id : ℕ) : WellFormed (g.finish id) :=
  (h.resumeControlling id).setRunning id fun _ _ hnon => by cases hnon

theorem pruneExpired : WellFormed g.pruneExpired := by
  have hsub : g.pruneExpired.sessions.Sublist g.sessions := filter_sublist
  have hmem : ∀ s ∈ g.pruneExpired.sessions, s ∈ g.sessions := fun s hs => hsub.subset hs
  have hclo:=h.destroySockets fun t => g.sessions.any fun s => s.key=t.key && g.stale s
  exact
    { keys := h.keys.sublist (hsub.map _)
      fresh := fun s hs => h.fresh s (hmem s hs)
      sockets := hclo.sockets
      socketFresh := hclo.socketFresh
      single := fun s hs s' hs' => h.single s (hmem s hs) s' (hmem s' hs')
      timer := fun timer htim => by
        rcases mem_append.1 htim with hold | hnew
        · obtain ⟨hlt,hid⟩ := h.timer timer (mem_filter.1 hold).1
          exact ⟨hlt,fun s hs => hid s (hmem s hs)⟩
        · obtain ⟨s,hs,rfl⟩ := mem_map.1 hnew
          have hs':=(mem_filter.1 hs).1
          refine ⟨h.fresh s hs',fun s'' hs'' hkey => ?_⟩
          rw [h.session_unique (hmem s'' hs'') hs' hkey]
      queued := fun id key hque => by
        obtain ⟨hlt,hid⟩ := h.queued id key hque
        exact ⟨hlt,fun s hs => hid s (hmem s hs)⟩
      owner := fun id r key hrun hkey => by
        obtain ⟨hlt,hown⟩ := h.owner id r key hrun hkey
        exact ⟨hlt,fun s hs => hown s (hmem s hs)⟩ }

end

theorem mem_setControllingSession {controller : Option ℕ} (hs : s ∈ (g.setControllingSession id controller).sessions) :
    ∃ old ∈ g.sessions, s.key=old.key ∧ s.id=old.id ∧
      (s.id=id → (s.controlling=true ↔ controller=some s.key)) ∧
      (s.id≠id → s.controlling=old.controlling) := by
  obtain ⟨old,hold,rfl⟩ := mem_map.1 hs
  refine ⟨old,hold,?_⟩
  split
  next hid => exact ⟨rfl,rfl,fun _ => by simp,fun hne => absurd hid hne⟩
  next hid => exact ⟨rfl,rfl,fun heq => absurd heq hid,fun _ => rfl⟩

section
variable (h : WellFormed g)
include h

theorem setControllingSession (id : ℕ) (controller : Option ℕ)
    (hown : ∀ r key, g.running id=some r → r.owner=some key → controller=none ∨ controller=some key) :
    WellFormed (g.setControllingSession id controller) := by
  have hclo:=h.destroySockets fun t => t.controlling && g.sessions.any fun s =>
    s.key=t.key && s.id=id && s.controlling && !(controller=some s.key)
  have hkes : (g.setControllingSession id controller).sessions.map ViewSession.key =
      g.sessions.map ViewSession.key := by
    unfold Gateway.setControllingSession
    rw [map_map]
    apply map_congr_left
    intro s _
    simp only [Function.comp_apply]
    split <;> rfl
  exact
    { keys := by rw [hkes]; exact h.keys
      fresh := fun s hs => by
        obtain ⟨old,hold,hkey,_⟩ := mem_setControllingSession hs
        rw [hkey]
        exact h.fresh old hold
      sockets := hclo.sockets
      socketFresh := hclo.socketFresh
      single := fun s hs s' hs' hid hcon hcon' => by
        obtain ⟨old,hold,hkey,hold_id,hset,hsam⟩ := mem_setControllingSession hs
        obtain ⟨old',hold',hkey',hold_id',hset',hsam'⟩ := mem_setControllingSession hs'
        by_cases heq : s.id=id
        · have hc:=(hset heq).1 hcon
          have hc':=(hset' (hid.symm.trans heq)).1 hcon'
          exact Option.some.inj (hc.symm.trans hc')
        · rw [hkey,hkey']
          apply h.single old hold old' hold'
          · rw [← hold_id,← hold_id',hid]
          · rw [← hsam heq]
            exact hcon
          · rw [← hsam' (hid ▸ heq)]
            exact hcon'
      timer := fun timer htim => by
        have hrea : timer.key<g.nextKey ∧ ∀ s ∈ g.sessions, s.key=timer.key → s.id=timer.id := by
          rcases mem_append.1 htim with hold | hnew
          · exact h.timer timer (mem_filter.1 hold).1
          · obtain ⟨s,hs,rfl⟩ := mem_map.1 hnew
            have hs':=(mem_filter.1 hs).1
            refine ⟨h.fresh s hs',fun s'' hs'' hkey => ?_⟩
            rw [h.session_unique hs'' hs' hkey]
        refine ⟨hrea.1,fun s hs hkey => ?_⟩
        obtain ⟨old,hold,hkey',hid,_⟩ := mem_setControllingSession hs
        rw [hid]
        exact hrea.2 old hold (hkey' ▸ hkey)
      queued := fun id' key hque => by
        obtain ⟨hlt,hids⟩ := h.queued id' key hque
        refine ⟨hlt,fun s hs hkey => ?_⟩
        obtain ⟨old,hold,hkey',hid,_⟩ := mem_setControllingSession hs
        rw [hid]
        exact hids old hold (hkey' ▸ hkey)
      owner := fun id' r key hrun hkey => by
        obtain ⟨hlt,hids⟩ := h.owner id' r key hrun hkey
        refine ⟨hlt,fun s hs => ?_⟩
        obtain ⟨old,hold,hkey',hold_id,hset,hsam⟩ := mem_setControllingSession hs
        refine ⟨fun heq => by rw [hold_id]; exact (hids old hold).1 (hkey' ▸ heq),fun hid hcon => ?_⟩
        by_cases heq : s.id=id
        · have hc:=(hset heq).1 hcon
          have hid' : id'=id := hid.symm.trans heq
          rcases hown r key (hid' ▸ hrun) hkey with hnon | hsome
          · rw [hnon] at hc
            cases hc
          · rw [hsome] at hc
            exact (Option.some.inj hc).symm
        · rw [hkey']
          apply (hids old hold).2
          · rw [← hold_id,hid]
          · rw [← hsam heq]
            exact hcon }

theorem setQueue (id : ℕ) {operations : List Operation}
    (hope : ∀ key, Operation.abandoned key ∈ operations → Operation.abandoned key ∈ g.queue id ∨
      key<g.nextKey ∧ ∀ s ∈ g.sessions, s.key=key → s.id=id) :
    WellFormed { g with queue := Function.update g.queue id operations } :=
  { h with
    queued := fun id' key hque => by
      have hque' : Operation.abandoned key ∈ Function.update g.queue id operations id' := hque
      by_cases heq : id'=id
      · subst heq
        rw [Function.update_self] at hque'
        rcases hope key hque' with hold | hnew
        · exact h.queued id' key hold
        · exact hnew
      · rw [Function.update_of_ne heq] at hque'
        exact h.queued id' key hque' }

theorem serialize (id : ℕ) (hope : ∀ key, operation=.abandoned key →
      key<g.nextKey ∧ ∀ s ∈ g.sessions, s.key=key → s.id=id) :
    WellFormed (g.serializeControlTransition id operation) := by
  apply h.setQueue
  intro key hmem
  rcases mem_append.1 hmem with hold | hnew
  · exact Or.inl hold
  · exact Or.inr (hope key (mem_singleton.1 hnew).symm)

theorem validViewSession (key id : ℕ) : WellFormed (g.validViewSession key id).1 :=
  h.pruneExpired

theorem operate (hrun : g.running id=none) (refused : Bool) (hope : ∀ key, operation=.abandoned key → key<g.nextKey ∧
      ∀ s ∈ g.sessions, s.key=key → s.id=id) : WellFormed (g.operate id refused operation) := by
  unfold Gateway.operate
  split
  next key action =>
    split
    · exact h.finish id
    · have hval:=h.validViewSession key id
      dsimp only
      split
      next => exact hval.finish id
      next s hs =>
        split
        next => exact hval.finish id
        next hown =>
          split
          next => exact hval.finish id
          next =>
            obtain ⟨hmem,hkey,hid,_⟩ := validViewSession_some hs
            apply hval.setRunning
            intro r key' hr hkey'
            cases hr
            cases action with
            | release => cases hkey'
            | take =>
              obtain rfl : key=key' := Option.some.inj hkey'
              refine ⟨hkey ▸ hval.fresh s hmem,fun s' hs' => ⟨fun heq => ?_,fun hid' hcog => ?_⟩⟩
              · rw [hval.session_unique hs' hmem (heq.trans hkey.symm)]
                exact hid
              by_contra hne
              apply hown
              rw [Bool.and_eq_true]
              refine ⟨rfl,any_eq_true.2 ⟨s',hs',?_⟩⟩
              simp [hid',hcog,hne]
  next =>
    split
    · exact h.finish id
    · apply h.setRunning
      intro r key hr hkey
      cases hr
      cases hkey
  next key =>
    split
    next => exact h.finish id
    next s hfou =>
      obtain ⟨hs,hkey⟩ := session_some hfou
      split
      next => exact h.finish id
      next hgo =>
        split
        next =>
          apply WellFormed.finish
          apply h.setControllingSession
          intro r key' hr
          rw [hrun] at hr
          cases hr
        next =>
          apply h.setRunning
          intro r key' hr hkey'
          cases hr
          obtain rfl : key=key' := Option.some.inj hkey'
          obtain ⟨hlt,hids⟩ := hope key rfl
          refine ⟨hlt,fun s' hs' => ⟨hids s' hs',fun hid hcog => ?_⟩⟩
          have hcon : s.controlling=true := by
            simp only [Bool.or_eq_true,Bool.not_eq_true',not_or,Bool.not_eq_false] at hgo
            exact hgo.1
          have hid' : s'.id=s.id := hid.trans (hids s hs hkey).symm
          rw [h.single s' hs' s hs hid' hcog hcon,hkey]

theorem beginTransition {refused : Bool} (hste : g.beginTransition id refused=some g') : WellFormed g' := by
  unfold Gateway.beginTransition at hste
  split at hste
  next operation rest hrun hque =>
    cases hste
    have hmem : operation ∈ g.queue id := by rw [hque]; exact mem_cons_self
    have hres : WellFormed { g with queue := Function.update g.queue id rest } := by
      apply h.setQueue
      intro key hkey
      left
      rw [hque]
      exact mem_cons_of_mem _ hkey
    apply (hres.pauseControlling id).operate hrun
    intro key heq
    exact h.queued id key (heq ▸ hmem)
  next => cases hste

theorem setHuman (id : ℕ) (action : HumanAction) : WellFormed (g.setHuman id action) :=
  { h with }

theorem execute (hste : g.execute id=some g') : WellFormed g' := by
  unfold Gateway.execute at hste
  split at hste
  next key action hrun =>
    cases hste
    apply (h.setHuman id action).setRunning
    intro r key' hr hkey'
    cases hr
    exact h.owner id _ key' hrun (by cases action <;> exact hkey')
  next key hrun =>
    cases hste
    apply (h.setHuman id .release).setRunning
    intro r key' hr hkey'
    cases hr
    exact h.owner id _ key' hrun hkey'
  next key released hrun =>
    cases hste
    apply (h.setHuman id .take).setRunning
    intro r key' hr hkey'
    cases hr
    exact h.owner id _ key' hrun hkey'
  next => cases hste

theorem giveUp (id : ℕ) (action : HumanAction) (executed late : Bool) :
    WellFormed (g.giveUp id action executed late) := by
  obtain ⟨requests,heq⟩ := giveUp_same id action executed late g
  rw [heq]
  exact { h with }

theorem succeed (hste : g.succeed id=some g') : WellFormed g' := by
  unfold Gateway.succeed at hste
  split at hste
  next key action hrun =>
    cases hste
    have hset : WellFormed (g.setControllingSession id (if action=.take then key else none)) := by
      apply h.setControllingSession
      intro r key' hr hkey'
      rw [hrun] at hr
      cases hr
      cases action with
      | take => exact Or.inr hkey'
      | release => exact Or.inl rfl
    apply hset.setRunning
    intro r key' hr hkey'
    cases hr
    cases hkey'
  next => cases hste

theorem settle {late : Bool} (hste : g.settle id late=some g') : WellFormed g' := by
  unfold Gateway.settle at hste
  split at hste
  · cases hste
    exact h.finish id
  · cases hste
    exact (h.giveUp id _ _ late).finish id
  · cases hste

theorem relinquish (id : ℕ) : WellFormed ((g.setControllingSession id none).finish id) := by
  apply WellFormed.finish
  apply h.setControllingSession
  intro _ _ _ _
  exact Or.inl rfl

/- The session of an abandoned transition still is of the transition's computer. -/
theorem armed (hs : s ∈ g.sessions) (hkey : s.key=key) (hid : s.id=id) :
    WellFormed ((g.armAbandonedControlRelease key id).finish id) := by
  apply WellFormed.finish
  rw [← hkey,← hid]
  exact h.arm hs

theorem afterRelease (released : Bool)
    (hown : ∀ s ∈ g.sessions, (s.key=key → s.id=id) ∧ (s.id=id → s.controlling=true → s.key=key))
    (hlt : key<g.nextKey) : WellFormed (g.afterRelease id key released) := by
  unfold Gateway.afterRelease
  split
  next => exact h.finish id
  next s hfou =>
    obtain ⟨hs,hkey⟩ := session_some hfou
    split
    · exact h.finish id
    · split
      · split
        · apply h.setRunning
          intro r key' hr hkey'
          cases hr
          obtain rfl : key=key' := Option.some.inj hkey'
          exact ⟨hlt,hown⟩
        · exact h.relinquish id
      · split
        · exact h.relinquish id
        · exact h.armed hs hkey ((hown s hs).1 hkey)

theorem afterRestore (restored : Bool) (hown : ∀ s ∈ g.sessions, s.key=key → s.id=id) :
    WellFormed (g.afterRestore id key restored) := by
  unfold Gateway.afterRestore
  split
  next hres =>
    split
    · exact h.finish id
    · cases hfou : g.session key with
      | none =>
        rw [hfou] at hres
        simp at hres
      | some s =>
        obtain ⟨hs,hkey⟩ := session_some hfou
        exact h.armed hs hkey (hown s hs hkey)
  next => exact h.relinquish id

theorem resolve {ok late : Bool} (hste : g.resolve id ok late=some g') : WellFormed g' := by
  unfold Gateway.resolve at hste
  split at hste
  next key executed hrun =>
    split at hste
    next => cases hste
    next =>
      cases hste
      obtain ⟨hlt,hown⟩ := h.owner id _ key hrun rfl
      have hgiv:=h.giveUp id .release executed late
      obtain ⟨requests,heq⟩ := giveUp_same id .release executed late g
      rw [heq] at hgiv ⊢
      exact hgiv.afterRelease ok hown hlt
  next key released executed hrun =>
    split at hste
    next => cases hste
    next =>
      cases hste
      obtain ⟨hlt,hown⟩ := h.owner id _ key hrun rfl
      have hgiv:=h.giveUp id .take executed late
      obtain ⟨requests,heq⟩ := giveUp_same id .take executed late g
      rw [heq] at hgiv ⊢
      exact hgiv.afterRestore ok fun s hs => (hown s hs).1
  next => cases hste

theorem openSession {tokenHash : String} (hste : g.openSession id tokenHash=some g') : WellFormed g' := by
  unfold Gateway.openSession at hste
  split at hste
  next route hrou =>
    split at hste
    next =>
      cases hste
      have hmem : ∀ s ∈ g.sessions++[⟨g.nextKey,id,tokenHash,false,false⟩],
          s ∈ g.sessions ∨ s.key=g.nextKey ∧ s.controlling=false := by
        intro s hs
        rcases mem_append.1 hs with hold | hnew
        · exact Or.inl hold
        · rw [mem_singleton.1 hnew]
          exact Or.inr ⟨rfl,rfl⟩
      have hid : ∀ {key id' : ℕ}, key<g.nextKey → (∀ s ∈ g.sessions, s.key=key → s.id=id') →
          ∀ s ∈ g.sessions++[⟨g.nextKey,id,tokenHash,false,false⟩], s.key=key → s.id=id' := by
        intro key id' hlt hids s hs hkey
        rcases hmem s hs with hold | ⟨hnew,_⟩
        · exact hids s hold hkey
        · omega
      exact
        { keys := by
            rw [map_append,nodup_append]
            refine ⟨h.keys,by simp,fun key hkey key' hkey' => ?_⟩
            obtain ⟨s,hs,rfl⟩ := mem_map.1 hkey
            have hlt:=h.fresh s hs
            have hnew : key'=g.nextKey := by simpa using hkey'
            omega
          fresh := fun s hs => by
            show s.key<g.nextKey+1
            rcases hmem s hs with hold | ⟨hnew,_⟩
            · have := h.fresh s hold
              omega
            · omega
          sockets := h.sockets
          socketFresh := h.socketFresh
          single := fun s hs s' hs' heq hcon hcon' => by
            rcases hmem s hs with hold | ⟨_,hnot⟩
            · rcases hmem s' hs' with hold' | ⟨_,hnot⟩
              · exact h.single s hold s' hold' heq hcon hcon'
              · rw [hnot] at hcon'
                cases hcon'
            · rw [hnot] at hcon
              cases hcon
          timer := fun timer htim => by
            obtain ⟨hlt,hids⟩ := h.timer timer htim
            exact ⟨Nat.lt_succ_of_lt hlt,hid hlt hids⟩
          queued := fun id' key hque => by
            obtain ⟨hlt,hids⟩ := h.queued id' key hque
            exact ⟨Nat.lt_succ_of_lt hlt,hid hlt hids⟩
          owner := fun id' r key hrun hkey => by
            obtain ⟨hlt,hown⟩ := h.owner id' r key hrun hkey
            refine ⟨Nat.lt_succ_of_lt hlt,fun s hs => ⟨hid hlt (fun s hs => (hown s hs).1) s hs,fun heq hc => ?_⟩⟩
            rcases hmem s hs with hold | ⟨_,hnot⟩
            · exact (hown s hold).2 heq hc
            · rw [hnot] at hc
              cases hc }
    next => cases hste
  next => cases hste

theorem expire (key : ℕ) : WellFormed (g.expire key) := by
  have hkes : (g.expire key).sessions.map ViewSession.key=g.sessions.map ViewSession.key := by
    unfold Gateway.expire
    rw [map_map]
    apply map_congr_left
    intro s _
    simp only [Function.comp_apply]
    split <;> rfl
  have hmem : ∀ s ∈ (g.expire key).sessions, ∃ old ∈ g.sessions,
      s.key=old.key ∧ s.id=old.id ∧ s.controlling=old.controlling := by
    intro s hs
    obtain ⟨old,hold,rfl⟩ := mem_map.1 hs
    refine ⟨old,hold,?_⟩
    split <;> exact ⟨rfl,rfl,rfl⟩
  have hid : ∀ {key' id' : ℕ}, (∀ s ∈ g.sessions, s.key=key' → s.id=id') →
      ∀ s ∈ (g.expire key).sessions, s.key=key' → s.id=id' := by
    intro key' id' hids s hs hkey
    obtain ⟨old,hold,hkey',hid',_⟩ := hmem s hs
    rw [hid']
    exact hids old hold (hkey' ▸ hkey)
  exact
    { keys := by rw [hkes]; exact h.keys
      fresh := fun s hs => by
        obtain ⟨old,hold,hkey,_⟩ := hmem s hs
        rw [hkey]
        exact h.fresh old hold
      sockets := h.sockets
      socketFresh := h.socketFresh
      single := fun s hs s' hs' heq hcon hcon' => by
        obtain ⟨old,hold,hkey,hid₁,hc⟩ := hmem s hs
        obtain ⟨old',hold',hkey',hid₂,hc'⟩ := hmem s' hs'
        rw [hkey,hkey']
        exact h.single old hold old' hold' (by rw [← hid₁,← hid₂,heq]) (hc ▸ hcon) (hc' ▸ hcon')
      timer := fun timer htim => ⟨(h.timer timer htim).1,hid (h.timer timer htim).2⟩
      queued := fun id' key' hque => ⟨(h.queued id' key' hque).1,hid (h.queued id' key' hque).2⟩
      owner := fun id' r key' hrun hkey => by
        obtain ⟨hlt,hown⟩ := h.owner id' r key' hrun hkey
        refine ⟨hlt,fun s hs => ⟨hid (fun s hs => (hown s hs).1) s hs,fun heq hcon => ?_⟩⟩
        obtain ⟨old,hold,hkey',hid',hc⟩ := hmem s hs
        rw [hkey']
        exact (hown old hold).2 (hid' ▸ heq) (hc ▸ hcon) }

theorem requestControl (id key : ℕ) (action : HumanAction) :
    WellFormed (g.requestControl id key action) := by
  unfold Gateway.requestControl
  split
  · have hval:=h.validViewSession key id
    dsimp only
    split
    · exact hval.serialize id fun _ heq => by cases heq
    · exact hval
  · exact h

theorem track {t : ViewerSocket} (ht : t.socket=g.nextSocket) :
    WellFormed { g with viewerSockets := g.viewerSockets++[t], nextSocket := g.nextSocket+1 } :=
  { h with
    sockets := by
      rw [map_append,nodup_append]
      refine ⟨h.sockets,by simp,fun n hn n' hn' => ?_⟩
      obtain ⟨old,hold,rfl⟩ := mem_map.1 hn
      have hlt:=h.socketFresh old hold
      have hnew : n'=t.socket := by simpa using hn'
      omega
    socketFresh := fun t' ht' => by
      show t'.socket<g.nextSocket+1
      rcases mem_append.1 ht' with hold | hnew
      · have := h.socketFresh t' hold
        omega
      · rw [mem_singleton.1 hnew,ht]
        omega }

theorem upgrade (id key : ℕ) : WellFormed (g.upgrade id key) := by
  unfold Gateway.upgrade
  split
  · have hval:=h.validViewSession key id
    dsimp only
    split
    · exact hval
    next s hs =>
      have htra:=hval.track
        (t := ⟨(g.validViewSession key id).1.nextSocket,key,id,s.controlling,.waiting,true,false⟩) rfl
      split
      · exact htra.clear key
      · exact htra
  · exact h

theorem setSocket (socket : ℕ) {f : ViewerSocket → ViewerSocket}
    (hf : ∀ t, (f t).socket=t.socket) : WellFormed (g.setSocket socket f) := by
  apply h.mapSockets
  intro t
  split
  · exact hf t
  · rfl

theorem connect (hste : g.connect socket=some g') : WellFormed g' := by
  unfold Gateway.connect at hste
  split at hste
  next t ht =>
    split at hste
    next =>
      split at hste
      next =>
        cases hste
        exact h.setSocket socket fun _ => rfl
      next route hrou =>
        have hval:=h.validViewSession t.key t.id
        dsimp only at hste
        split at hste
        next =>
          cases hste
          exact hval.setSocket socket fun _ => rfl
        next s hs =>
          split at hste
          · cases hste
            exact hval.setSocket socket fun _ => rfl
          · cases hste
            exact hval.setSocket socket fun _ => rfl
    next => cases hste
  next => cases hste

theorem connected (hste : g.connected socket=some g') : WellFormed g' := by
  unfold Gateway.connected at hste
  split at hste
  next t ht =>
    split at hste
    next target hpha =>
      split at hste
      next =>
        split at hste
        next =>
          cases hste
          exact h.setSocket socket fun _ => rfl
        next route hrou =>
          have hval:=h.validViewSession t.key t.id
          dsimp only at hste
          split at hste
          next =>
            cases hste
            exact hval.setSocket socket fun _ => rfl
          next s hs =>
            split at hste
            · cases hste
              exact hval.setSocket socket fun _ => rfl
            · cases hste
              exact hval.setSocket socket fun _ => rfl
      next => cases hste
    next => cases hste
  next => cases hste

theorem closed (hste : g.closed socket=some g') : WellFormed g' := by
  unfold Gateway.closed at hste
  split at hste
  next t ht =>
    split at hste
    next =>
      cases hste
      have hres : WellFormed { g with viewerSockets := g.viewerSockets.filter (·.socket≠socket) } :=
        { h with
          sockets := h.sockets.sublist (filter_sublist.map _)
          socketFresh := fun t ht => h.socketFresh t (mem_filter.1 ht).1 }
      split
      next s hfou =>
        split
        · exact hres.arm (session_some hfou).1
        · exact hres
      next => exact hres
    next => cases hste
  next => cases hste

theorem step {action : GatewayAction} (hste : gatewayStep g action=some g') :
    WellFormed g' := by
  cases action with
  | setRoute id route =>
    cases hste
    exact { h with }
  | openSession id tokenHash => exact h.openSession hste
  | expire key =>
    cases hste
    exact h.expire key
  | pruneExpired =>
    cases hste
    exact h.pruneExpired
  | requestControl id key action =>
    cases hste
    exact h.requestControl id key action
  | operatorRelease id =>
    simp only [gatewayStep] at hste
    split at hste
    · cases hste
      exact h.serialize id fun _ heq => by cases heq
    · cases hste
  | beginTransition id refused => exact h.beginTransition hste
  | execute id => exact h.execute hste
  | succeed id => exact h.succeed hste
  | settle id late => exact h.settle hste
  | resolve id ok late => exact h.resolve hste
  | executeLate index =>
    obtain ⟨request,_,rfl⟩ := Option.map_eq_some_iff.1 hste
    exact { h with }
  | upgrade id key =>
    cases hste
    exact h.upgrade id key
  | connect socket => exact h.connect hste
  | connected socket => exact h.connected hste
  | disconnect socket =>
    cases hste
    exact h.destroySockets _
  | closed socket => exact h.closed hste
  | abandonedTimerFires timer =>
    simp only [gatewayStep,Gateway.abandonedTimerFires] at hste
    split at hste
    next hmem =>
      cases hste
      have hres : WellFormed { g with abandonedControlTimers := g.abandonedControlTimers.erase timer } :=
        h.timers fun _ htim => Or.inl (mem_of_mem_erase htim)
      apply hres.serialize
      intro key heq
      cases heq
      exact h.timer timer hmem
    next => cases hste

end

theorem start (routes : ℕ → Option RuntimeRoute) : WellFormed (Gateway.start routes) where
  keys := nodup_nil
  fresh := fun s hs => absurd hs not_mem_nil
  sockets := nodup_nil
  socketFresh := fun t ht => absurd ht not_mem_nil
  single := fun s hs => absurd hs not_mem_nil
  timer := fun timer htim => absurd htim not_mem_nil
  queued := fun id key hque => absurd hque not_mem_nil
  owner := fun id r key hrun => by cases hrun

end WellFormed
end Qubicl.Viewing
