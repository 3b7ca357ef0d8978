import Mathlib.Data.List.Nodup
import Qubicl.Control.Supervision.Moves

/-!
# The records of the process manager

Where each id is, which ids have a record, and what a run does to one record: it only handles events.
-/

namespace Qubicl.Control.Supervision
open List Option
open Process (ProcessLifecycle)
open Foundation ProcessManager

variable {options : ManagerOptions} {failing : List (ℕ × String)} {m m' : ProcessManager}

/-- How often an id is queued, in the map, or explicitly stopped. -/
def place (m : ProcessManager) (id : ℕ) : ℕ :=
  (m.pendingServices.map PendingService.id).count id+m.processes.count id+m.stopped.count id

structure WellFormed (m : ProcessManager) : Prop where
  placed : ∀ id < m.loaded, place m id=1
  once : ∀ id, place m id≤1
  unused : ∀ id, m.created ≤ id → place m id=0 ∧ m.managed id=none
  waiting : ∀ pending ∈ m.pendingServices, pending.id < m.loaded ∧ m.managed pending.id=none
  known : ∀ id ∈ m.processes, m.managed id≠none
  loaded_le : m.loaded ≤ m.created
  service : ∀ id < m.loaded, ∀ managed, m.managed id=some managed → managed.lifecycle=.service

theorem count_ids_filter (id id' : ℕ) (pendings : List PendingService) :
    ((pendings.filter fun pending => pending.id≠id).map PendingService.id).count id' =
      if id'=id then 0 else (pendings.map PendingService.id).count id' := by
  induction pendings with
  | nil => simp
  | cons pending pendings ih =>
    by_cases hid : pending.id=id
    · rw [filter_cons_of_neg (by simp [hid]),ih]
      split
      · rfl
      next hne =>
        rw [map_cons,count_cons_of_ne (by rw [hid]; exact Ne.symm hne)]
    · rw [filter_cons_of_pos (by simp [hid]),map_cons,count_cons,ih]
      split
      next heq =>
        have hne : pending.id≠id' := by rw [heq]; exact hid
        simp [hne]
      next => rw [map_cons,count_cons]

theorem count_filter_ne (id id' : ℕ) (ids : List ℕ) :
    (ids.filter (· ≠ id)).count id'=if id'=id then 0 else ids.count id' := by
  split
  next heq =>
    subst heq
    exact count_eq_zero_of_not_mem (by simp)
  next hne => exact count_filter (by simpa using hne)

variable {managed managed' : ManagedProcess}

theorem handle_lifecycle {paused : Bool} {event : ProcessEvent} (h : event.handle paused managed=some managed') :
    managed'.lifecycle=managed.lifecycle := by
  cases event with
  | error =>
    cases h
    rfl
  | close child code signal =>
    obtain ⟨_,rfl⟩ := by simpa [ProcessEvent.handle] using h
    unfold ManagedProcess.onClose
    split
    · rfl
    · dsimp only
      split
      · rfl
      · exact complete_lifecycle _
  | restartTimer timer =>
    obtain ⟨_,rfl⟩ := by simpa [ProcessEvent.handle] using h
    rfl
  | restartFenced fenced spawns =>
    obtain ⟨_,rfl⟩ := by simpa [ProcessEvent.handle] using h
    unfold ManagedProcess.restartService
    split
    · exact complete_lifecycle _
    · split
      · rfl
      · split
        · rfl
        · exact complete_lifecycle _
  | probed child failed expired =>
    cases h
    unfold ManagedProcess.probed
    split
    · rfl
    · split
      · split
        · rfl
        · rfl
      · rfl
  | terminate signal reason =>
    cases h
    unfold ManagedProcess.terminate
    dsimp only
    split
    · unfold ManagedProcess.finishCallback
      split
      · exact complete_lifecycle _
      · exact complete_lifecycle _
    · split
      · rfl
      · split
        · rfl
        · rfl

namespace WellFormed

variable {after before : List PendingService} {id : ℕ} {pending : PendingService}

section
variable (h : WellFormed m)
include h

/- A queued service is launched: its id goes from the queue to the map. -/
theorem saved (hque : m.pendingServices=before++pending::after) :
    WellFormed { m.launch pending.id .service pending.service with pendingServices := before++after } := by
  have hcou : ∀ id, (m.pendingServices.map PendingService.id).count id =
      ((before++after).map PendingService.id).count id+if pending.id=id then 1 else 0 := by
    intro id
    simp only [hque,map_append,map_cons,count_append,count_cons,beq_iff_eq]
    omega
  have hmem : pending ∈ m.pendingServices := by rw [hque]; simp
  obtain ⟨hloa,hfre⟩ := h.waiting pending hmem
  have hpla : ∀ id, place { m.launch pending.id .service pending.service with
      pendingServices := before++after } id=place m id := by
    intro id
    simp only [place,launch,hcou id,count_append,count_cons,count_nil,beq_iff_eq]
    omega
  have hoth : ∀ p ∈ before++after, p.id≠pending.id := by
    intro p hp heq
    have honc:=h.once pending.id
    have hpos : 0<((before++after).map PendingService.id).count pending.id := by
      rw [count_pos_iff,← heq]
      exact mem_map_of_mem hp
    simp only [place,hcou pending.id,ite_true] at honc
    omega
  exact
    { placed := fun id hid => by rw [hpla]; exact h.placed id hid
      once := fun id => by rw [hpla]; exact h.once id
      unused := fun id hid => by
        have hne : id≠pending.id := by
          have := h.loaded_le
          have hid' : m.created ≤ id := hid
          omega
        obtain ⟨hzer,hnon⟩ := h.unused id hid
        rw [hpla]
        refine ⟨hzer,?_⟩
        show Function.update m.managed pending.id _ id=none
        rw [Function.update_of_ne hne]
        exact hnon
      waiting := fun p hp => by
        have hold : p ∈ m.pendingServices := by
          rw [hque]
          rcases mem_append.1 hp with hb | ha
          · exact mem_append_left _ hb
          · exact mem_append_right _ (mem_cons_of_mem _ ha)
        obtain ⟨hlt,hnon⟩ := h.waiting p hold
        refine ⟨hlt,?_⟩
        show Function.update m.managed pending.id _ p.id=none
        rw [Function.update_of_ne (hoth p hp)]
        exact hnon
      known := fun id hid => by
        show Function.update m.managed pending.id _ id≠none
        by_cases heq : id=pending.id
        · rw [heq,Function.update_self]
          simp
        · rw [Function.update_of_ne heq]
          have hold : id ∈ m.processes := by simpa [launch,heq] using hid
          exact h.known id hold
      loaded_le := h.loaded_le
      service := fun id hid managed hman => by
        have hman' : Function.update m.managed pending.id _ id=some managed := hman
        by_cases heq : id=pending.id
        · rw [heq,Function.update_self] at hman'
          cases hman'
          rfl
        · rw [Function.update_of_ne heq] at hman'
          exact h.service id hid managed hman' }

theorem unstartable (message : String) (hque : m.pendingServices=before++pending::after) :
    WellFormed { m with
      pendingServices := before ++ { pending with startError := some message } :: after } := by
  have hids : (before ++ { pending with startError := some message } :: after).map PendingService.id =
      m.pendingServices.map PendingService.id := by simp [hque]
  have hpla : ∀ id, place { m with
      pendingServices := before ++ { pending with startError := some message } :: after } id=place m id := by
    intro id
    simp only [place,hids]
  exact
    { h with
      placed := fun id hid => by rw [hpla]; exact h.placed id hid
      once := fun id => by rw [hpla]; exact h.once id
      unused := fun id hid => by rw [hpla]; exact h.unused id hid
      waiting := fun p hp => by
        have hid : p.id ∈ m.pendingServices.map PendingService.id := hids ▸ mem_map_of_mem hp
        obtain ⟨old,hold,heq⟩ := mem_map.1 hid
        rw [← heq]
        exact h.waiting old hold }

theorem started (lifecycle : ProcessLifecycle) (service : Option ServiceOptions) :
    WellFormed { m.launch m.created lifecycle service with created := m.created+1 } := by
  obtain ⟨hzer,hnon⟩ := h.unused m.created (Nat.le_refl _)
  have hpla : ∀ id, place { m.launch m.created lifecycle service with created := m.created+1 } id =
      place m id+if m.created=id then 1 else 0 := by
    intro id
    simp only [place,launch,count_append,count_cons,count_nil,beq_iff_eq]
    omega
  exact
    { placed := fun id hid => by
        have := h.loaded_le
        have hid' : id < m.loaded := hid
        rw [hpla,if_neg (by omega)]
        exact h.placed id hid
      once := fun id => by
        rw [hpla]
        split
        next heq =>
          have hunu : place m id=0 := heq ▸ hzer
          omega
        next => exact h.once id
      unused := fun id hid => by
        have hid' : m.created+1 ≤ id := hid
        obtain ⟨hz,hn⟩ := h.unused id (by omega)
        rw [hpla,if_neg (by omega)]
        refine ⟨hz,?_⟩
        show Function.update m.managed m.created _ id=none
        rw [Function.update_of_ne (by omega)]
        exact hn
      waiting := fun p hp => by
        obtain ⟨hlt,hn⟩ := h.waiting p hp
        have := h.loaded_le
        refine ⟨hlt,?_⟩
        show Function.update m.managed m.created _ p.id=none
        rw [Function.update_of_ne (by omega)]
        exact hn
      known := fun id hid => by
        show Function.update m.managed m.created _ id≠none
        by_cases heq : id=m.created
        · rw [heq,Function.update_self]
          simp
        · rw [Function.update_of_ne heq]
          have hold : id ∈ m.processes := by simpa [launch,heq] using hid
          exact h.known id hold
      loaded_le := Nat.le_succ_of_le h.loaded_le
      service := fun id hid managed hman => by
        have := h.loaded_le
        have hid' : id < m.loaded := hid
        have hman' : Function.update m.managed m.created _ id=some managed := hman
        rw [Function.update_of_ne (by omega)] at hman'
        exact h.service id hid managed hman' }

theorem record {managed managed' : ManagedProcess} {event : ProcessEvent} (hrec : m.managed id=some managed)
    (heve : event.handle m.paused managed=some managed') :
    WellFormed { m with
      managed := Function.update m.managed id (some managed')
      launches := m.launches+(managed'.spawned - managed.spawned) } := by
  have hnon : ∀ id', m.managed id'=none → Function.update m.managed id (some managed') id'=none := by
    intro id' hid'
    have hne : id'≠id := by
      intro heq
      rw [heq,hrec] at hid'
      cases hid'
    rw [Function.update_of_ne hne]
    exact hid'
  exact
    { h with
      unused := fun id' hid' => ⟨(h.unused id' hid').1,hnon id' (h.unused id' hid').2⟩
      waiting := fun p hp => ⟨(h.waiting p hp).1,hnon p.id (h.waiting p hp).2⟩
      known := fun id' hid' => by
        show Function.update m.managed id (some managed') id'≠none
        by_cases heq : id'=id
        · rw [heq,Function.update_self]
          simp
        · rw [Function.update_of_ne heq]
          exact h.known id' hid'
      service := fun id' hid' r hr => by
        have hr' : Function.update m.managed id (some managed') id'=some r := hr
        by_cases heq : id'=id
        · rw [heq,Function.update_self] at hr'
          cases hr'
          rw [handle_lifecycle heve]
          exact h.service id (heq ▸ hid') managed hrec
        · rw [Function.update_of_ne heq] at hr'
          exact h.service id' hid' r hr' }

theorem deleted {managed : ManagedProcess} (hrec : m.managed id=some managed) (hlif : managed.lifecycle≠.service) :
    WellFormed (m.deleteRecord id) := by
  have hpla : ∀ id', place (m.deleteRecord id) id'≤place m id' := by
    intro id'
    simp only [place,deleteRecord,count_filter_ne]
    split <;> omega
  exact
    { h with
      placed := fun id' hid' => by
        have hne : id'≠id := by
          intro heq
          exact hlif (h.service id (heq ▸ hid') managed hrec)
        have hsam : place (m.deleteRecord id) id'=place m id' := by
          simp only [place,deleteRecord,count_filter_ne,if_neg hne]
        rw [hsam]
        exact h.placed id' hid'
      once := fun id' => Nat.le_trans (hpla id') (h.once id')
      unused := fun id' hid' => by
        obtain ⟨hzer,hnon⟩ := h.unused id' hid'
        have := hpla id'
        exact ⟨by omega,hnon⟩
      known := fun id' hid' => h.known id' (mem_filter.1 hid').1 }

theorem disabled (hpen : m.isPending id=true) : WellFormed (m.disable id) := by
  obtain ⟨pending,hmem,hid⟩ := any_eq_true.1 hpen
  have hid' : pending.id=id := by simpa using hid
  have hpos : 0<(m.pendingServices.map PendingService.id).count id := by
    rw [count_pos_iff,← hid']
    exact mem_map_of_mem hmem
  have hpla : ∀ id', place (m.disable id) id'=place m id' := by
    intro id'
    have honc:=h.once id
    simp only [place] at honc
    simp only [place,disable,count_ids_filter,count_append,count_cons,count_nil,beq_iff_eq]
    split
    next heq =>
      subst heq
      rw [if_pos rfl]
      omega
    next hne =>
      rw [if_neg (Ne.symm hne)]
      omega
  exact
    { h with
      placed := fun id' hid' => by rw [hpla]; exact h.placed id' hid'
      once := fun id' => by rw [hpla]; exact h.once id'
      unused := fun id' hid' => by rw [hpla]; exact h.unused id' hid'
      waiting := fun p hp => h.waiting p (mem_filter.1 hp).1 }

theorem stopped (hmem : id ∈ m.processes) : WellFormed { m.deleteRecord id with stopped := m.stopped++[id] } := by
  have hpos : 0 < m.processes.count id := count_pos_iff.2 hmem
  have hpla : ∀ id', place { m.deleteRecord id with stopped := m.stopped++[id] } id'=place m id' := by
    intro id'
    have honc:=h.once id
    simp only [place] at honc
    simp only [place,deleteRecord,count_filter_ne,count_append,count_cons,count_nil,beq_iff_eq]
    split
    next heq =>
      subst heq
      rw [if_pos rfl]
      omega
    next hne =>
      rw [if_neg (Ne.symm hne)]
      omega
  exact
    { h with
      placed := fun id' hid' => by rw [hpla]; exact h.placed id' hid'
      once := fun id' => by rw [hpla]; exact h.once id'
      unused := fun id' hid' => by rw [hpla]; exact h.unused id' hid'
      known := fun id' hid' => h.known id' (mem_filter.1 hid').1 }

theorem move (hmov : Move options m m') : WellFormed m' := by
  cases hmov with
  | saved before pending after hadm herr hque => exact h.saved hque
  | unstartable before pending after message hque => exact h.unstartable message hque
  | started lifecycle service hadm hdra => exact h.started lifecycle service
  | opened hadm hdra =>
    exact { h with
      unused := fun id hid => h.unused id (Nat.le_of_succ_le hid)
      loaded_le := Nat.le_succ_of_le h.loaded_le }
  | terminals terminals hle => exact { h with }
  | record id managed managed' event hrec heve => exact h.record hrec heve
  | deleted id managed hrec hlif => exact h.deleted hrec hlif
  | disabled id hpen => exact h.disabled hpen
  | stopped id managed hrec hdon hmem => exact h.stopped hmem
  | controls => exact { h with }

end

theorem queued_ids (definitions : List (Option ServiceOptions)) :
    (queued definitions).pendingServices.map PendingService.id=List.range definitions.length := by
  apply ext_getElem
  · simp [ProcessManager.queued]
  · intro i hi hi'
    simp [ProcessManager.queued]

/- Before anything is started every saved definition is queued, once. -/
theorem load (definitions : List (Option ServiceOptions)) : WellFormed (queued definitions) := by
  have hpla : ∀ id, place (queued definitions) id=(List.range definitions.length).count id := by
    intro id
    simp only [place,queued_ids]
    rfl
  have hnod : (List.range definitions.length).Nodup := nodup_range
  exact
    { placed := fun id hid => by
        rw [hpla]
        exact count_eq_one_of_mem hnod (mem_range.2 hid)
      once := fun id => by
        rw [hpla]
        exact nodup_iff_count_le_one.1 hnod id
      unused := fun id hid => by
        rw [hpla]
        have hid' : definitions.length ≤ id := hid
        exact ⟨count_eq_zero_of_not_mem (by simpa using hid'),rfl⟩
      waiting := fun pending hmem => by
        have hid : pending.id ∈ List.range definitions.length := by
          rw [← queued_ids]
          exact mem_map_of_mem hmem
        exact ⟨mem_range.1 hid,rfl⟩
      known := fun id hid => by cases hid
      loaded_le := Nat.le_refl _
      service := fun id _ managed hman => by cases hman }

theorem reachable (h : (managerSystem options).Reachable m) : WellFormed m := by
  refine h.invariant (P := WellFormed) ?_ ?_
  · intro m hini
    obtain ⟨failing,definitions,rfl⟩ := hini
    exact (drain_moves _).preserves (load definitions) fun _ _ hm hmov => hm.move hmov
  · intro m action m' hm hste
    exact (managerStep_moves hste).preserves hm fun _ _ hm hmov => hm.move hmov

end WellFormed

/-- From one state to a later one each record only handled events, and a new record is in order. -/
structure Grows (m m' : ProcessManager) : Prop where
  evolves : ∀ id managed, m.managed id=some managed →
    ∃ managed', m'.managed id=some managed' ∧ Evolves managed managed'
  fresh : ∀ id managed', m.managed id=none → m'.managed id=some managed' → Supervised managed'

namespace Grows

theorem of_same (h : m'.managed=m.managed) : Grows m m' where
  evolves := fun id managed hman => ⟨managed,by rw [h]; exact hman,.refl managed⟩
  fresh := fun id managed' hnon hsom => by
    rw [h,hnon] at hsom
    cases hsom

theorem trans {m'' : ProcessManager} (h : Grows m m') (h' : Grows m' m'') : Grows m m'' where
  evolves := fun id managed hman => by
    obtain ⟨managed',hman',hrun⟩ := h.evolves id managed hman
    obtain ⟨managed'',hman'',hrun'⟩ := h'.evolves id managed' hman'
    exact ⟨managed'',hman'',hrun.trans hrun'⟩
  fresh := fun id managed'' hnon hsom => by
    cases hmid : m'.managed id with
    | none => exact h'.fresh id managed'' hmid hsom
    | some managed' =>
      obtain ⟨last,hlas,hrun⟩ := h'.evolves id managed' hmid
      rw [hsom] at hlas
      cases hlas
      exact hrun.supervised (h.fresh id managed' hnon hmid)

theorem launch {id : ℕ} (hnon : m.managed id=none) (lifecycle : ProcessLifecycle)
    (service : Option ServiceOptions)
    (h : m'.managed=Function.update m.managed id (some (.started lifecycle service))) : Grows m m' where
  evolves := fun id' managed hman => by
    have hne : id'≠id := by
      intro heq
      rw [heq,hnon] at hman
      cases hman
    exact ⟨managed,by rw [h,Function.update_of_ne hne]; exact hman,.refl managed⟩
  fresh := fun id' managed' hnon' hsom => by
    rw [h] at hsom
    by_cases heq : id'=id
    · rw [heq,Function.update_self] at hsom
      cases hsom
      exact Supervised.started lifecycle service
    · rw [Function.update_of_ne heq,hnon'] at hsom
      cases hsom

theorem record {id : ℕ} {managed managed' : ManagedProcess} (hrec : m.managed id=some managed)
    (hrun : Evolves managed managed') (h : m'.managed=Function.update m.managed id (some managed')) :
    Grows m m' where
  evolves := fun id' other hoth => by
    by_cases heq : id'=id
    · rw [heq,hrec] at hoth
      cases hoth
      exact ⟨managed',by rw [h,heq,Function.update_self],hrun⟩
    · exact ⟨other,by rw [h,Function.update_of_ne heq]; exact hoth,.refl other⟩
  fresh := fun id' other hnon hsom => by
    have hne : id'≠id := by
      intro heq
      rw [heq,hrec] at hnon
      cases hnon
    rw [h,Function.update_of_ne hne,hnon] at hsom
    cases hsom

theorem move (h : WellFormed m) (hmov : Move options m m') : Grows m m' := by
  cases hmov with
  | saved before pending after hadm herr hque =>
    have hmem : pending ∈ m.pendingServices := by rw [hque]; simp
    exact .launch (h.waiting pending hmem).2 .service pending.service rfl
  | started lifecycle service hadm hdra =>
    exact .launch (h.unused m.created (Nat.le_refl _)).2 lifecycle service rfl
  | record id managed managed' event hrec heve => exact .record hrec (.event heve) rfl
  | unstartable => exact .of_same rfl
  | opened => exact .of_same rfl
  | terminals => exact .of_same rfl
  | deleted => exact .of_same rfl
  | disabled => exact .of_same rfl
  | stopped => exact .of_same rfl
  | controls => exact .of_same rfl

theorem moves (h : WellFormed m) (hmov : Moves options m m') : Grows m m' := by
  have key:=hmov.preserves (P := fun m' => WellFormed m' ∧ Grows m m') ⟨h,.of_same rfl⟩
    fun m₁ m₂ hm hmoe => ⟨hm.1.move hmoe,hm.2.trans (.move hm.1 hmoe)⟩
  exact key.2

theorem run (h : WellFormed m) {actions : List ManagerAction} (hrun : (managerSystem options).Run m actions m') :
    Grows m m' := by
  have key:=hrun.preserves (P := fun m' => WellFormed m' ∧ Grows m m')
    (fun m₁ _ m₂ hm hste => ⟨(managerStep_moves hste).preserves hm.1 fun _ _ hm hmov => hm.move hmov,
      hm.2.trans (.moves hm.1 (managerStep_moves hste))⟩) ⟨h,.of_same rfl⟩
  exact key.2

end Grows

theorem reachable_supervised (h : (managerSystem options).Reachable m) {id : ℕ} (hman : m.managed id=some managed) :
    Supervised managed := by
  obtain ⟨m₀,actions,⟨failing,definitions,rfl⟩,hrun⟩ := h
  have hloa:=WellFormed.load definitions
  have hdra : WellFormed (loadServices options failing definitions) :=
    (drain_moves _).preserves hloa fun _ _ hm hmov => hm.move hmov
  have hgro : Grows (queued definitions) m := (Grows.moves hloa (drain_moves _)).trans (.run hdra hrun)
  exact hgro.fresh id managed rfl hman

theorem Evolves.completed (h : Evolves managed managed') (hsup : Supervised managed) (hdon : managed.completed=true) :
    managed'.completed=true := by
  have key:=h.preserves (P := fun r => Supervised r ∧ r.completed=true) ⟨hsup,hdon⟩
    fun _ _ _ _ hr heve => ⟨ProcessEvent.supervised hr.1 heve,Halted.completed hr.1 hr.2 heve⟩
  exact key.2

theorem close_finishes (h : WellFormed m) {id : ℕ} (hman : m.managed id=some managed) (hsup : Supervised managed)
    (hhal : Halted managed) (hliv : managed.completed=false) (code : Option ℤ) (signal : Option ℕ) :
    ∃ m' managed', managerStep options m (.event id (.close managed.child code signal) failing)=some m' ∧
      m'.managed id=some managed' ∧ managed'.completed=true ∧ managed'.finished=true := by
  obtain ⟨_,hclo⟩ := hhal.close hsup hliv
  obtain ⟨closed,heve,hdon,_⟩ := hclo m.paused code signal
  have hste : m.dispatch options failing id (.close managed.child code signal) =
      some (m.settle options failing id managed closed) := by
    unfold dispatch
    rw [hman,bind_some,heve,map_some]
  have hset:=Grows.moves h (@settle_moves options failing _ _ _ _ _ hman heve)
  have hsam : ∃ managed', (m.settle options failing id managed closed).managed id=some managed' ∧
      Evolves closed managed' := by
    have hrec:=h.record hman heve
    unfold settle
    dsimp only
    split
    · exact (Grows.moves hrec (drain_moves _)).evolves id closed (Function.update_self ..)
    · exact ⟨closed,Function.update_self ..,.refl closed⟩
  obtain ⟨managed',hman',hrun⟩ := hsam
  have hcld:=ProcessEvent.supervised hsup heve
  have hdon':=hrun.completed hcld hdon
  exact ⟨_,managed',hste,hman',hdon',(hrun.supervised hcld).settled.trans hdon'⟩

/-- The restarts of a service are bounded and back off exponentially, it has one child at a
time, and once it is terminated or completed no run spawns another one: the child's close is
all that is awaited, and it resolves the promise of the service in the step that completes it. -/
theorem restarts_are_bounded (options : ManagerOptions) {m : ProcessManager}
    (h : (managerSystem options).Reachable m) {id : ℕ} {managed : ManagedProcess}
    (hmanaged : m.managed id=some managed) :
    (managed.openChildren.length≤1 ∧ ∀ child ∈ managed.openChildren, child=managed.child) ∧
    (managed.restart=none → managed.restartAttempts=0) ∧
    (∀ policy, managed.restart=some policy → managed.restartAttempts≤policy.maxAttempts ∧
      managed.backoffs=(List.range managed.restartAttempts).map fun k =>
        min 30000 (policy.backoffMs.getD 1000*2 ^ k)) ∧
    managed.finished=managed.completed ∧
    ((managed.terminateCalled=true ∨ managed.completed=true) →
      ∀ actions m', (managerSystem options).Run m actions m' →
        ∃ managed', m'.managed id=some managed' ∧ managed'.spawned=managed.spawned ∧
          managed'.finished=managed'.completed ∧
          (managed'.completed=false → managed'.openChildren=[managed'.child] ∧
            ∀ code signal failing, ∃ m'' managed'',
              managerStep options m' (.event id (.close managed'.child code signal) failing)=some m'' ∧
                m''.managed id=some managed'' ∧ managed''.completed=true ∧ managed''.finished=true)) := by
  have hsup:=reachable_supervised h hmanaged
  have hlen : managed.openChildren.length≤1 := by
    have := hsup.single
    omega
  refine ⟨⟨hlen,hsup.current⟩,hsup.unrestarted,?_,hsup.settled,?_⟩
  · intro policy hpol
    exact ⟨hsup.bounded policy hpol,hsup.backedOff policy hpol⟩
  · intro hhal actions m' hrun
    have hwel:=WellFormed.reachable h
    have hwel':=WellFormed.reachable (h.run hrun)
    obtain ⟨managed',hmanaged',hevo⟩ := (Grows.run hwel hrun).evolves id managed hmanaged
    obtain ⟨hsup',hhal',hspa⟩ := Halted.evolves hsup hhal hevo
    refine ⟨managed',hmanaged',hspa,hsup'.settled,fun hliv => ?_⟩
    refine ⟨(hhal'.close hsup' hliv).1,fun code signal failing => ?_⟩
    exact close_finishes hwel' hmanaged' hsup' hhal' hliv code signal

/- A service that failed twice and was stopped while its third child runs. -/
theorem restarts_are_bounded_run :
    ∃ m managed, (managerSystem ⟨2,2⟩).Reachable m ∧ m.managed 0=some managed ∧
      managed.backoffs=[200,400] ∧ managed.completed=false ∧ managed.openChildren=[2] ∧
      ∃ m' managed', managerStep ⟨2,2⟩ m (.event 0 (.close 2 none (some 15)) [])=some m' ∧
        m'.managed 0=some managed' ∧ managed'.completed=true ∧ managed'.finished=true := by
  have hrun : ((managerSystem ⟨2,2⟩).exec (loadServices ⟨2,2⟩ [] [])
      [.exec .service (some ⟨true,some ⟨3,some 200⟩⟩) true [],.event 0 (.close 0 (some 1) none) [],
        .event 0 (.restartTimer 0) [],.event 0 (.restartFenced true true) [],
        .event 0 (.probed 1 false false) [],.event 0 (.close 1 none (some 9)) [],
        .event 0 (.restartTimer 1) [],.event 0 (.restartFenced true true) [],
        .stopForManagement 0 true []]).bind (fun m => (m.managed 0).map fun managed =>
          (managed.child,managed.backoffs,managed.completed,managed.terminateCalled)) =
      some (2,[200,400],false,true) := by decide
  obtain ⟨m,hexe,hrec⟩ := bind_eq_some_iff.1 hrun
  obtain ⟨managed,hman,hfie⟩ := map_eq_some_iff.1 hrec
  obtain ⟨hchi,hbac,hliv,hcal⟩ := by simpa using hfie
  have hrea : (managerSystem ⟨2,2⟩).Reachable m :=
    ⟨_,_,⟨[],[],rfl⟩,TransitionSystem.run_of_exec hexe⟩
  obtain ⟨_,_,_,_,hhal⟩ := restarts_are_bounded ⟨2,2⟩ hrea hman
  obtain ⟨same,hsam,_,_,hclo⟩ := hhal (Or.inl hcal) [] m (.refl m)
  rw [hman] at hsam
  cases hsam
  obtain ⟨hope,hcls⟩ := hclo hliv
  rw [hchi] at hope hcls
  exact ⟨m,managed,hrea,hman,hbac,hliv,hope,hcls none (some 15) []⟩

end Qubicl.Control.Supervision
