import Qubicl.Control.Supervision.Records

/-!
# The limit on running work

No move takes the count over its limit, and while a saved service can be started
nothing but services runs: whatever else starts comes after the queue was drained.
-/

namespace Qubicl.Control.Supervision
open List
open Process (ProcessLifecycle)
open Foundation ProcessManager

variable {options : ManagerOptions} {failing : List (ℕ × String)} {m m' : ProcessManager}

theorem count_eq_countP (m : ProcessManager) :
    m.count=m.processes.countP m.live+m.terminals.countP PtySession.running := by
  unfold ProcessManager.count
  rw [countP_eq_length_filter,countP_eq_length_filter]

variable {id : ℕ}

theorem live_eq {managed : ManagedProcess} (h : m.managed id=some managed) :
    m.live id = !managed.completed := by
  unfold live
  rw [h]

theorem live_congr (h : m'.managed id=m.managed id) : m'.live id=m.live id := by
  unfold live
  rw [h]

theorem count_deleteRecord (h : id ∈ m.processes → m.live id=false) :
    (m.deleteRecord id).count=m.count := by
  have hfil : (m.processes.filter (· ≠ id)).filter m.live=m.processes.filter m.live := by
    rw [filter_filter]
    apply filter_congr
    intro id' hid'
    by_cases heq : id'=id
    · subst heq
      simp [h hid']
    · simp [heq]
  show ((m.processes.filter (· ≠ id)).filter m.live).length+_=_
  rw [hfil]
  rfl

theorem count_deleteRecord_le (m : ProcessManager) (id : ℕ) : (m.deleteRecord id).count ≤ m.count := by
  have hsub : ((m.processes.filter (· ≠ id)).filter m.live).length≤(m.processes.filter m.live).length := by
    apply List.Sublist.length_le
    exact (filter_sublist (p := (· ≠ id)) (l := m.processes)).filter _
  show ((m.processes.filter (· ≠ id)).filter m.live).length+_≤_
  unfold ProcessManager.count deleteRecord
  dsimp only
  omega

theorem count_launch (h : WellFormed m) (hnon : m.managed id=none) (lifecycle : ProcessLifecycle)
    (service : Option ServiceOptions) : (m.launch id lifecycle service).count=m.count+1 := by
  have hold : m.processes.filter (m.launch id lifecycle service).live=m.processes.filter m.live := by
    apply filter_congr
    intro id' hid'
    have hne : id'≠id := by
      intro heq
      rw [heq] at hid'
      exact h.known id hid' hnon
    apply live_congr
    show Function.update m.managed id _ id'=m.managed id'
    rw [Function.update_of_ne hne]
  have hnew : (m.launch id lifecycle service).live id=true := by
    rw [@live_eq _ _ (.started lifecycle service) (Function.update_self ..)]
    rfl
  unfold ProcessManager.count
  show ((m.processes++[id]).filter (m.launch id lifecycle service).live).length+_=_
  rw [filter_append,hold,filter_cons_of_pos hnew]
  simp only [filter_nil,length_append,length_cons,length_nil]
  show _+(m.terminals.filter PtySession.running).length=_
  omega

variable {managed managed' : ManagedProcess}

theorem count_record_le (hrec : m.managed id=some managed)
    (hdon : managed.completed=true → managed'.completed=true) (h : m'.processes=m.processes)
    (hter : m'.terminals=m.terminals)
    (hman : m'.managed=Function.update m.managed id (some managed')) : m'.count ≤ m.count := by
  rw [count_eq_countP,count_eq_countP,h,hter]
  have hmon : m.processes.countP m'.live ≤ m.processes.countP m.live := by
    apply countP_mono_left
    intro id' _ hliv
    by_cases heq : id'=id
    · subst heq
      rw [@live_eq _ _ managed' (by rw [hman,Function.update_self])] at hliv
      rw [live_eq hrec]
      cases hcom : managed.completed with
      | false => rfl
      | true => simp [hdon hcom] at hliv
    · rw [live_congr (m := m) (by rw [hman,Function.update_of_ne heq])] at hliv
      exact hliv
  omega

theorem count_record_eq (hrec : m.managed id=some managed)
    (hsam : managed'.completed=managed.completed) (h : m'.processes=m.processes)
    (hter : m'.terminals=m.terminals)
    (hman : m'.managed=Function.update m.managed id (some managed')) : m'.count=m.count := by
  rw [count_eq_countP,count_eq_countP,h,hter]
  have hliv : m'.live=m.live := by
    funext id'
    by_cases heq : id'=id
    · subst heq
      rw [@live_eq _ _ managed' (by rw [hman,Function.update_self]),live_eq hrec,hsam]
    · exact live_congr (by rw [hman,Function.update_of_ne heq])
  rw [hliv]

/-- While something queued can be started, only services run. -/
def OnlyServices (m : ProcessManager) : Prop :=
  (∀ session ∈ m.terminals, session.running=false) ∧
    ∀ id ∈ m.processes, ∀ managed, m.managed id=some managed → managed.completed=false →
      managed.lifecycle=.service

structure Limited (options : ManagerOptions) (m : ProcessManager) : Prop where
  capacity : m.count≤options.maxProcesses
  services : ∀ pending ∈ m.pendingServices, pending.startError=none → OnlyServices m

variable {pending : PendingService}

theorem Move.startable (hmov : Move options m m') (hmem : pending ∈ m'.pendingServices)
    (herr : pending.startError=none) : pending ∈ m.pendingServices := by
  cases hmov with
  | saved before launched after hadm hsta hque =>
    rw [hque]
    rcases mem_append.1 hmem with hb | ha
    · exact mem_append_left _ hb
    · exact mem_append_right _ (mem_cons_of_mem _ ha)
  | unstartable before failed after message hque =>
    rw [hque]
    rcases mem_append.1 hmem with hb | ha
    · exact mem_append_left _ hb
    · rcases mem_cons.1 ha with heq | ha
      · rw [heq] at herr
        cases herr
      · exact mem_append_right _ (mem_cons_of_mem _ ha)
  | disabled id hpen => exact (mem_filter.1 hmem).1
  | started => exact hmem
  | opened => exact hmem
  | terminals => exact hmem
  | record => exact hmem
  | deleted => exact hmem
  | stopped => exact hmem
  | controls => exact hmem

theorem Moves.startable (hmov : Moves options m m') (hmem : pending ∈ m'.pendingServices)
    (herr : pending.startError=none) : pending ∈ m.pendingServices := by
  have key:=hmov.preserves
    (P := fun m' => ∀ p ∈ m'.pendingServices, p.startError=none → p ∈ m.pendingServices)
    (fun p hp _ => hp) fun m₁ m₂ hm hmoe p hp hsta => hm p (hmoe.startable hp hsta) hsta
  exact key pending hmem herr

/-- The records are in order, in particular a completed one stays so. -/
structure Managed (m : ProcessManager) : Prop where
  wellFormed : WellFormed m
  supervised : ∀ id managed, m.managed id=some managed → Supervised managed

theorem Managed.move (h : Managed m) (hmov : Move options m m') : Managed m' where
  wellFormed := h.wellFormed.move hmov
  supervised := fun id managed' hsom => by
    have hgro:=Grows.move h.wellFormed hmov
    cases hold : m.managed id with
    | none => exact hgro.fresh id managed' hold hsom
    | some managed =>
      obtain ⟨last,hlas,hrun⟩ := hgro.evolves id managed hold
      rw [hsom] at hlas
      cases hlas
      exact hrun.supervised (h.supervised id managed hold)

theorem OnlyServices.deleteRecord (h : OnlyServices m) (id : ℕ) : OnlyServices (m.deleteRecord id) :=
  ⟨h.1,fun id' hid' => h.2 id' (mem_filter.1 hid').1⟩

theorem OnlyServices.launch (h : OnlyServices m) (id : ℕ) (service : Option ServiceOptions) :
    OnlyServices (m.launch id .service service) := by
  refine ⟨h.1,fun id' hid' managed hman hliv => ?_⟩
  have hman' : Function.update m.managed id _ id'=some managed := hman
  by_cases heq : id'=id
  · rw [heq,Function.update_self] at hman'
    cases hman'
    rfl
  · rw [Function.update_of_ne heq] at hman'
    have hold : id' ∈ m.processes := by simpa [ProcessManager.launch,heq] using hid'
    exact h.2 id' hold managed hman' hliv

theorem OnlyServices.record (h : OnlyServices m)
    (hrec : m.managed id=some managed) (hlif : managed'.lifecycle=managed.lifecycle)
    (hdon : managed.completed=true → managed'.completed=true) (hpro : m'.processes=m.processes)
    (hter : m'.terminals=m.terminals)
    (hman : m'.managed=Function.update m.managed id (some managed')) : OnlyServices m' := by
  refine ⟨by rw [hter]; exact h.1,fun id' hid' last hlas hliv => ?_⟩
  rw [hpro] at hid'
  rw [hman] at hlas
  by_cases heq : id'=id
  · rw [heq,Function.update_self] at hlas
    cases hlas
    rw [hlif]
    cases hcom : managed.completed with
    | false => exact h.2 id (heq ▸ hid') managed hrec hcom
    | true =>
      rw [hdon hcom] at hliv
      cases hliv
  · rw [Function.update_of_ne heq] at hlas
    exact h.2 id' hid' last hlas hliv

theorem running_nil {terminals : List PtySession} (h : (terminals.filter PtySession.running).length≤0) :
    ∀ session ∈ terminals, session.running=false := by
  intro session hmem
  have hnil : terminals.filter PtySession.running=[] := length_eq_zero_iff.1 (by omega)
  have hnot:=filter_eq_nil_iff.1 hnil session hmem
  simpa using hnot

theorem running_zero (h : OnlyServices m) : (m.terminals.filter PtySession.running).length≤0 := by
  have hnil : m.terminals.filter PtySession.running=[] :=
    filter_eq_nil_iff.2 fun session hmem => by simp [h.1 session hmem]
  rw [hnil]
  exact Nat.le_refl 0

/-- No move exceeds the limit, and nothing but a service starts while one waits. -/
theorem Limited.move (hman : Managed m) (h : Limited options m) (hmov : Move options m m') :
    Limited options m' := by
  have hbef : ∀ pending ∈ m'.pendingServices, pending.startError=none → OnlyServices m :=
    fun pending hmem herr => h.services pending (hmov.startable hmem herr) herr
  have hcap:=h.capacity
  cases hmov with
  | saved before launched after hadm hsta hque =>
    have hmem : launched ∈ m.pendingServices := by rw [hque]; simp
    have hcou:=count_launch hman.wellFormed (hman.wellFormed.waiting launched hmem).2 .service
      launched.service
    have hroo:=hadm.room
    have hle : (m.launch launched.id .service launched.service).count≤options.maxProcesses := by omega
    exact ⟨hle,fun pending hpen herr => (hbef pending hpen herr).launch launched.id launched.service⟩
  | unstartable before failed after message hque => exact ⟨h.capacity,hbef⟩
  | started lifecycle service hadm hdra =>
    have hcou:=count_launch hman.wellFormed
      (hman.wellFormed.unused m.created (Nat.le_refl _)).2 lifecycle service
    have hroo:=hadm.room
    have hle : (m.launch m.created lifecycle service).count≤options.maxProcesses := by omega
    exact ⟨hle,fun pending hpen herr => absurd herr (hdra pending hpen)⟩
  | opened hadm hdra =>
    have hroo:=hadm.room
    have hcou : ProcessManager.count { m with
        terminals := m.terminals++[⟨m.created,true⟩]
        created := m.created+1
        launches := m.launches+1 } = m.count+1 := by
      unfold ProcessManager.count
      show (m.processes.filter m.live).length+((m.terminals++[PtySession.mk m.created true]).filter _).length=_
      rw [filter_append,length_append]
      exact (Nat.add_assoc _ _ _).symm
    exact ⟨by omega,fun pending hpen herr => absurd herr (hdra pending hpen)⟩
  | terminals terminals hle =>
    have hcou : ProcessManager.count { m with terminals } ≤ m.count := by
      show (m.processes.filter m.live).length+(terminals.filter PtySession.running).length≤_
      unfold ProcessManager.count
      omega
    refine ⟨by omega,fun pending hpen herr => ?_⟩
    have honl:=hbef pending hpen herr
    exact ⟨running_nil (Nat.le_trans hle (running_zero honl)),honl.2⟩
  | record id managed managed' event hrec heve =>
    have hsup:=hman.supervised id managed hrec
    have hdon : managed.completed=true → managed'.completed=true :=
      fun hdon => Halted.completed hsup hdon heve
    have hcou:=@count_record_le m { m with
      managed := Function.update m.managed id (some managed')
      launches := m.launches+(managed'.spawned - managed.spawned) } id managed managed' hrec hdon rfl rfl rfl
    exact ⟨by omega,fun pending hpen herr =>
      (hbef pending hpen herr).record hrec (handle_lifecycle heve) hdon rfl rfl rfl⟩
  | deleted id managed hrec hlif =>
    have hcou:=count_deleteRecord_le m id
    exact ⟨by omega,fun pending hpen herr => (hbef pending hpen herr).deleteRecord id⟩
  | disabled id hpen => exact ⟨h.capacity,hbef⟩
  | stopped id managed hrec hdon hmem =>
    have hcou : ProcessManager.count { m.deleteRecord id with stopped := m.stopped++[id] } ≤ m.count :=
      count_deleteRecord_le m id
    exact ⟨by omega,fun pending hpen herr => (hbef pending hpen herr).deleteRecord id⟩
  | controls => exact ⟨h.capacity,h.services⟩

theorem Managed.reachable (h : (managerSystem options).Reachable m) : Managed m :=
  ⟨WellFormed.reachable h,fun _ _ hman => reachable_supervised h hman⟩

theorem Limited.moves (hman : Managed m) (h : Limited options m) (hmov : Moves options m m') :
    Limited options m' := by
  have key:=hmov.preserves (P := fun m' => Managed m' ∧ Limited options m') ⟨hman,h⟩
    fun _ _ hm hmoe => ⟨hm.1.move hmoe,hm.2.move hm.1 hmoe⟩
  exact key.2

theorem Limited.reachable (h : (managerSystem options).Reachable m) : Limited options m := by
  refine h.induct ?_ ?_
  · intro m hini
    obtain ⟨failing,definitions,rfl⟩ := hini
    have hloa : Managed (queued definitions) := ⟨.load definitions,fun id managed hsom => by cases hsom⟩
    have hemp : Limited options (queued definitions) :=
      ⟨Nat.zero_le _,fun _ _ _ => ⟨fun _ hmem => absurd hmem not_mem_nil,fun _ hid => absurd hid not_mem_nil⟩⟩
    exact hemp.moves hloa (drain_moves _)
  · intro m action m' hrea hlim hste
    exact hlim.moves (.reachable hrea) (managerStep_moves hste)

end Qubicl.Control.Supervision
