import Qubicl.Control.Pointer.Board

/-!
# The store among its viewers

Calls of the owner of the store, queries that wait, timers and continuations come in any order.
-/

namespace Qubicl.Control.Pointer
open Foundation List Option

structure Viewers where
  store : ViewerPointerStore := {}
  board : Board := {}
  log : List ViewerPointerEvent := []
  calls : ℕ := 0
  answered : List (ℕ × ViewerPointerEvents) := []

inductive Action
  | call (c : Call) (now : ℤ)
  | waitSince (after : NumberValue)
  | timeout (waiter : Waiter)
  | resume (waiter : Waiter)

namespace Viewers
variable (v : Viewers)

def call (c : Call) (now : ℤ) : Viewers :=
  let after:=v.store.call c now
  { v with store := after.1, board := v.board.call c, log := v.log++after.2.toList }

def waitSince (after : NumberValue) : Viewers :=
  let started:=v.store.waitSince after v.calls
  { v with
    store := started.1
    calls := v.calls+1
    answered := started.2.toList.map (fun answer => (v.calls,answer))++v.answered }

/-- A timer fires while its call waits: both wakers clear it. -/
def timeout (waiter : Waiter) : Option Viewers :=
  if waiter ∈ v.store.waiters then some { v with store := v.store.timeout waiter } else none

/-- A call goes on after its promise was settled. -/
def resume (waiter : Waiter) : Option Viewers :=
  if waiter ∈ v.store.resolved then
    some
      { v with
        store := { v.store with resolved := v.store.resolved.erase waiter }
        answered := (waiter.call,v.store.since waiter.sequence)::v.answered }
  else none

def step : Action → Option Viewers
  | .call c now => some (v.call c now)
  | .waitSince after => some (v.waitSince after)
  | .timeout waiter => v.timeout waiter
  | .resume waiter => v.resume waiter

end Viewers

def system : TransitionSystem Viewers Action where
  initial v := v = {}
  step v a := v.step a

theorem recent_recent (log : List ViewerPointerEvent) (event : ViewerPointerEvent) :
    recent (recent log++[event])=recent (log++[event]) := by
  have hlen : (recent log).length=min log.length MAX_EVENTS := by
    unfold recent
    rw [length_drop]
    omega
  have hdro : recent log++[event]=(log++[event]).drop (log.length - MAX_EVENTS) := by
    unfold recent
    rw [drop_append_of_le_length (Nat.sub_le _ _)]
  have hlog : recent (log++[event])=(log++[event]).drop ((log++[event]).length - MAX_EVENTS) := rfl
  rw [hlog]
  unfold recent at hdro hlen ⊢
  rw [hdro,drop_drop]
  congr 1
  simp only [length_drop,length_append,length_cons,length_nil]
  omega

structure Invariant (v : Viewers) : Prop where
  ordered : v.board.Ordered
  holds : Holds v.store v.board
  displays : Displays v.store v.board.front
  sequences : v.log.map ViewerPointerEvent.sequence=List.range' 1 v.log.length
  latest : v.store.sequence=v.log.length
  events : v.store.events=recent v.log
  waiting : ∀ waiter ∈ v.store.waiters, waiter.sequence=v.log.length ∧ waiter.call<v.calls
  nodup : v.store.waiters.Nodup

theorem invariant_initial : Invariant {} where
  ordered := ⟨nodup_nil,nodup_nil,fun candidate hmem => by cases hmem⟩
  holds := ⟨rfl,rfl,rfl⟩
  displays := ⟨rfl,rfl⟩
  sequences := rfl
  latest := rfl
  events := rfl
  waiting := fun waiter hmem => by cases hmem
  nodup := nodup_nil

theorem Invariant.call {v : Viewers} (h : Invariant v) (c : Call) (now : ℤ) : Invariant (v.call c now) := by
  obtain ⟨hord,hfol⟩ := call_follows h.ordered h.holds h.displays c now
  have hpub:=hfol.published
  have hlog : (v.call c now).log=v.log++(v.store.call c now).2.toList := rfl
  have hsto : (v.call c now).store=(v.store.call c now).1 := rfl
  have hcal : (v.call c now).calls=v.calls := rfl
  have hque : (v.call c now).log.map ViewerPointerEvent.sequence=List.range' 1 (v.call c now).log.length ∧
      (v.call c now).store.sequence=(v.call c now).log.length ∧ (v.call c now).store.events=recent (v.call c now).log ∧
      (∀ waiter ∈ (v.call c now).store.waiters, waiter.sequence=(v.call c now).log.length ∧ waiter.call<v.calls) ∧
      (v.call c now).store.waiters.Nodup := by
    rw [hlog,hsto]
    generalize (v.store.call c now).1=store' at hpub
    generalize (v.store.call c now).2=emitted at hpub
    cases hpub with
    | silent hseq heve hwai hres =>
      simp only [toList_none,append_nil]
      rw [hseq,heve,hwai]
      exact ⟨h.sequences,h.latest,h.events,h.waiting,h.nodup⟩
    | emitted event hnum hseq heve hwai hres =>
      have hnum' : event.sequence=v.log.length+1 := by rw [hnum,h.latest]
      simp only [toList_some]
      rw [hseq,heve,hwai,h.events,recent_recent]
      refine ⟨?_,?_,rfl,(fun waiter hmem => by cases hmem),nodup_nil⟩
      · rw [map_append,h.sequences,length_append,map_singleton,length_singleton,
          range'_concat,hnum',Nat.one_mul,Nat.add_comm]
      · rw [hnum',length_append,length_singleton]
  obtain ⟨hses,hlat,heve,hwag,hnod⟩ := hque
  exact ⟨hord,hfol.holds,hfol.displays,hses,hlat,heve,hwag,hnod⟩

theorem Invariant.waitSince {v : Viewers} (h : Invariant v) (after : NumberValue) : Invariant (v.waitSince after) := by
  unfold Viewers.waitSince ViewerPointerStore.waitSince
  by_cases hseq : ViewerPointerStore.requested after≠v.store.sequence
  · simp only [if_pos hseq]
    refine ⟨h.ordered,h.holds,h.displays,h.sequences,h.latest,h.events,?_,h.nodup⟩
    intro waiter hmem
    obtain ⟨heq,hlt⟩ := h.waiting waiter hmem
    exact ⟨heq,Nat.lt_succ_of_lt hlt⟩
  · simp only [if_neg hseq]
    have hreq : ViewerPointerStore.requested after=v.log.length := (not_not.1 hseq).trans h.latest
    refine ⟨h.ordered,⟨h.holds.order,h.holds.pending,h.holds.confirmed⟩,⟨h.displays.displayed,h.displays.current⟩,
      h.sequences,h.latest,h.events,?_,?_⟩
    · intro waiter hmem
      rcases mem_append.1 hmem with hold | hnew
      · obtain ⟨heq,hlt⟩ := h.waiting waiter hold
        exact ⟨heq,Nat.lt_succ_of_lt hlt⟩
      · obtain rfl := mem_singleton.1 hnew
        exact ⟨hreq,Nat.lt_succ_self _⟩
    · rw [nodup_append]
      refine ⟨h.nodup,nodup_singleton _,?_⟩
      intro waiter hold other hnew heq
      obtain rfl := mem_singleton.1 hnew
      have hlt:=(h.waiting waiter hold).2
      rw [heq] at hlt
      exact Nat.lt_irrefl _ hlt

theorem Invariant.step {v v' : Viewers} (h : Invariant v) {a : Action} (hste : v.step a=some v') : Invariant v' := by
  cases a with
  | call c now =>
    obtain rfl := Option.some.inj hste
    exact h.call c now
  | waitSince after =>
    obtain rfl := Option.some.inj hste
    exact h.waitSince after
  | timeout waiter =>
    have htim : v.timeout waiter=some v' := hste
    unfold Viewers.timeout at htim
    split at htim
    · obtain rfl := Option.some.inj htim
      exact ⟨h.ordered,⟨h.holds.order,h.holds.pending,h.holds.confirmed⟩,⟨h.displays.displayed,h.displays.current⟩,
        h.sequences,h.latest,h.events,fun other hmem => h.waiting other (mem_of_mem_erase hmem),h.nodup.erase _⟩
    · cases htim
  | resume waiter =>
    have hres : v.resume waiter=some v' := hste
    unfold Viewers.resume at hres
    split at hres
    · obtain rfl := Option.some.inj hres
      exact ⟨h.ordered,⟨h.holds.order,h.holds.pending,h.holds.confirmed⟩,⟨h.displays.displayed,h.displays.current⟩,
        h.sequences,h.latest,h.events,h.waiting,h.nodup⟩
    · cases hres

variable {as : List Action}

theorem invariant_of_run {v : Viewers} (h : system.Run {} as v) : Invariant v :=
  h.preserves (fun _ _ _ hv hste => hv.step hste) invariant_initial

inductive Course (log : List ViewerPointerEvent) (waiter : Waiter) (as : List Action) (v : Viewers) : Prop
  | waits : waiter ∈ v.store.waiters → v.log=log → Action.timeout waiter ∉ as → Course log waiter as v
  | ended : waiter ∉ v.store.waiters → (log.length<v.log.length ∨ Action.timeout waiter ∈ as) →
      (waiter ∈ v.store.resolved ∨ ∃ answer, (waiter.call,answer) ∈ v.answered) → Course log waiter as v

variable {log : List ViewerPointerEvent} {waiter : Waiter}

theorem Course.call {v : Viewers}
    (h : Course log waiter as v) (hv : Invariant v) (c : Call) (now : ℤ) :
    Course log waiter (as++[.call c now]) (v.call c now) := by
  have hpub:=(call_follows hv.ordered hv.holds hv.displays c now).2.published
  have hmem : Action.timeout waiter ∈ as++[.call c now] ↔ Action.timeout waiter ∈ as := by simp
  have hlog : (v.call c now).log=v.log++(v.store.call c now).2.toList := rfl
  have hsto : (v.call c now).store=(v.store.call c now).1 := rfl
  have hans : (v.call c now).answered=v.answered := rfl
  generalize v.call c now=v' at hlog hsto hans ⊢
  generalize (v.store.call c now).1=store' at hpub hsto
  generalize (v.store.call c now).2=emitted at hpub hlog
  cases hpub with
  | silent hseq heve hwas hres =>
    have hlog' : v'.log=v.log := by simpa using hlog
    cases h with
    | waits hwai hsam hfired =>
      exact .waits (by rw [hsto,hwas]; exact hwai) (hlog'.trans hsam) (fun hin => hfired (hmem.1 hin))
    | ended hwai hwhy hgon =>
      rw [← hlog',← hmem] at hwhy
      rw [← hans,← hres,← hsto] at hgon
      exact .ended (by rw [hsto,hwas]; exact hwai) hwhy hgon
  | emitted event hnum hseq heve hwas hres =>
    have hlon : v'.log.length=v.log.length+1 := by rw [hlog]; simp
    have hnon : waiter ∉ v'.store.waiters := by
      rw [hsto,hwas]
      exact not_mem_nil
    cases h with
    | waits hwai hsam hfired =>
      have hwok : waiter ∈ v'.store.resolved := by
        rw [hsto,hres]
        exact mem_append_right _ hwai
      exact .ended hnon (Or.inl (by rw [hlon,hsam]; exact Nat.lt_succ_self _)) (Or.inl hwok)
    | ended hwai hwhy hgon =>
      have hwhy' : log.length<v'.log.length ∨ Action.timeout waiter ∈ as++[.call c now] := by
        rcases hwhy with hlt | hfired
        · exact Or.inl (by omega)
        · exact Or.inr (hmem.2 hfired)
      have hgon' : waiter ∈ v'.store.resolved ∨ ∃ answer, (waiter.call,answer) ∈ v'.answered := by
        rcases hgon with hin | hanswer
        · exact Or.inl (by rw [hsto,hres]; exact mem_append_left _ hin)
        · exact Or.inr (by rw [hans]; exact hanswer)
      exact .ended hnon hwhy' hgon'

theorem Course.waitSince {v : Viewers}
    (h : Course log waiter as v) (hcal : waiter.call<v.calls) (after : NumberValue) :
    Course log waiter (as++[.waitSince after]) (v.waitSince after) := by
  have hmem : Action.timeout waiter ∈ as++[.waitSince after] ↔ Action.timeout waiter ∈ as := by simp
  have hlog : (v.waitSince after).log=v.log := rfl
  have hwas : waiter ∈ (v.waitSince after).store.waiters ↔ waiter ∈ v.store.waiters := by
    unfold Viewers.waitSince ViewerPointerStore.waitSince
    by_cases hseq : ViewerPointerStore.requested after≠v.store.sequence
    · simp only [if_pos hseq]
    · simp only [if_neg hseq]
      rw [mem_append]
      refine or_iff_left ?_
      intro hnew
      obtain rfl := mem_singleton.1 hnew
      exact Nat.lt_irrefl _ hcal
  have hres : (v.waitSince after).store.resolved=v.store.resolved := by
    unfold Viewers.waitSince ViewerPointerStore.waitSince
    by_cases hseq : ViewerPointerStore.requested after≠v.store.sequence
    · simp only [if_pos hseq]
    · simp only [if_neg hseq]
  have hans : ∀ answer, answer ∈ v.answered → answer ∈ (v.waitSince after).answered :=
    fun answer hin => mem_append_right _ hin
  cases h with
  | waits hwai hsam hfir =>
    exact .waits (hwas.2 hwai) (hlog.trans hsam) (fun hin => hfir (hmem.1 hin))
  | ended hwai hwhy hgon =>
    refine .ended (fun hin => hwai (hwas.1 hin)) (hwhy.imp (fun hlt => hlog ▸ hlt) hmem.2) ?_
    rw [hres]
    exact hgon.imp_right fun ⟨answer,hin⟩ => ⟨answer,hans _ hin⟩

theorem Course.timeout {v v' : Viewers}
    (h : Course log waiter as v) (hv : Invariant v) {other : Waiter} (hste : v.timeout other=some v') :
    Course log waiter (as++[.timeout other]) v' := by
  unfold Viewers.timeout at hste
  split at hste
  next hoth =>
    obtain rfl := Option.some.inj hste
    have hmem : Action.timeout waiter ∈ as++[.timeout other] ↔ Action.timeout waiter ∈ as ∨ waiter=other := by simp
    cases h with
    | waits hwai hsam hfir =>
      by_cases heq : waiter=other
      · subst heq
        exact .ended (fun hin => hv.nodup.not_mem_erase hin) (Or.inr (hmem.2 (Or.inr rfl)))
          (Or.inl (mem_append_right _ (mem_singleton_self _)))
      · refine .waits ((mem_erase_of_ne heq).2 hwai) hsam ?_
        intro hin
        exact (hmem.1 hin).elim hfir heq
    | ended hwai hwhy hgon =>
      refine .ended (fun hin => hwai (mem_of_mem_erase hin)) (hwhy.imp_right fun hin => hmem.2 (Or.inl hin)) ?_
      exact hgon.imp_left fun hin => mem_append_left _ hin
  · cases hste

theorem Course.resume {v v' : Viewers}
    (h : Course log waiter as v) {other : Waiter} (hste : v.resume other=some v') :
    Course log waiter (as++[.resume other]) v' := by
  unfold Viewers.resume at hste
  split at hste
  next hoth =>
    obtain rfl := Option.some.inj hste
    have hmem : Action.timeout waiter ∈ as++[.resume other] ↔ Action.timeout waiter ∈ as := by simp
    cases h with
    | waits hwai hsam hfir => exact .waits hwai hsam (fun hin => hfir (hmem.1 hin))
    | ended hwai hwhy hgon =>
      refine .ended hwai (hwhy.imp_right hmem.2) ?_
      rcases hgon with hin | ⟨answer,hin⟩
      · by_cases heq : waiter=other
        · subst heq
          exact Or.inr ⟨_,mem_cons_self⟩
        · exact Or.inl ((mem_erase_of_ne heq).2 hin)
      · exact Or.inr ⟨answer,mem_cons_of_mem _ hin⟩
  · cases hste

theorem calls_le {v v' : Viewers} {a : Action} (hste : v.step a=some v') : v.calls≤v'.calls := by
  cases a with
  | call c now =>
    obtain rfl := Option.some.inj hste
    exact Nat.le_refl _
  | waitSince after =>
    obtain rfl := Option.some.inj hste
    exact Nat.le_succ _
  | timeout waiter =>
    have htim : v.timeout waiter=some v' := hste
    unfold Viewers.timeout at htim
    split at htim
    · obtain rfl := Option.some.inj htim
      exact Nat.le_refl _
    · cases htim
  | resume waiter =>
    have hres : v.resume waiter=some v' := hste
    unfold Viewers.resume at hres
    split at hres
    · obtain rfl := Option.some.inj hres
      exact Nat.le_refl _
    · cases hres

/-- The course of a call along a run, by induction on the run. -/
theorem course_of_run {v u : Viewers} (hv : Invariant v)
    (hwai : waiter ∈ v.store.waiters) (hrun : system.Run v as u) : Course v.log waiter as u := by
  have key : Invariant u ∧ waiter.call<u.calls ∧ Course v.log waiter as u := by
    induction hrun with
    | refl => exact ⟨hv,(hv.waiting waiter hwai).2,.waits hwai rfl not_mem_nil⟩
    | @tail t u bs a _ hste ih =>
      obtain ⟨ht,hcal,hcou⟩ := ih
      refine ⟨ht.step hste,Nat.lt_of_lt_of_le hcal (calls_le hste),?_⟩
      cases a with
      | call c now =>
        obtain rfl := Option.some.inj hste
        exact hcou.call ht c now
      | waitSince after =>
        obtain rfl := Option.some.inj hste
        exact hcou.waitSince hcal after
      | timeout other => exact hcou.timeout ht hste
      | resume other => exact hcou.resume hste
  exact key.2.2

/-- What holds of the store wherever a run has brought it. -/
structure Faithful (v : Viewers) : Prop where
  /-- The cursor is that of the candidate begun last. -/
  current : v.store.current.map ViewerPointerState.place=v.board.front.map Candidate.place
  numbered : v.log.map ViewerPointerEvent.sequence=List.range' 1 v.log.length
  /-- A call emits one event or none. -/
  emitted : ∀ c now, ∃ event : Option ViewerPointerEvent, (v.call c now).log=v.log++event.toList ∧
    (event.isSome ↔ (v.call c now).board.front≠v.board.front ∨ (v.call c now).board.begun≠v.board.begun) ∧
    ∀ e ∈ event, e.Tells (v.call c now).board.front
  since : ∀ after : NumberValue,
    v.store.since (ViewerPointerStore.requested after) =
      { events := (recent v.log).filter fun event => event.sequence > ViewerPointerStore.requested after
        latestSequence := v.log.length
        current := v.store.current
        display := (DISPLAY_WIDTH,DISPLAY_HEIGHT) }
  /-- A query for another number than the latest is answered at once. -/
  immediate : ∀ after : NumberValue, ViewerPointerStore.requested after≠v.log.length →
    (v.waitSince after).store=v.store ∧
      (v.waitSince after).answered=(v.calls,v.store.since (ViewerPointerStore.requested after))::v.answered
  /-- The others wait until the first event or their timer, and no longer. -/
  woken : ∀ after : NumberValue, ViewerPointerStore.requested after=v.log.length →
    ∀ as u, system.Run (v.waitSince after) as u →
      let waiter : Waiter := { call := v.calls, sequence := ViewerPointerStore.requested after }
      (waiter ∈ u.store.waiters ↔ u.log=v.log ∧ Action.timeout waiter ∉ as) ∧
        (waiter ∉ u.store.waiters → waiter ∈ u.store.resolved ∨ ∃ answer, (v.calls,answer) ∈ u.answered)

theorem begun_front {board : Board} (h : board.Ordered) (c : Call) (hben : (board.call c).begun≠board.begun) :
    (board.call c).front≠board.front := by
  have hbeg : ∀ action actionId, (board.begin action actionId).begun≠board.begun →
      (board.begin action actionId).front≠board.front := by
    intro action actionId hne heq
    unfold Board.begin at hne heq
    cases hpoi : pointerPoint action with
    | none => simp [hpoi] at hne
    | some point =>
      simp only [hpoi] at hne heq
      split at hne
      next hfit =>
        rw [if_pos hfit,(begin_accepted h point hfit.2).2] at heq
        have hle:=h.le_begun _ (Board.front_mem heq.symm)
        have hnew : (point.candidate (board.begun+1)).order=board.begun+1 := rfl
        omega
      · exact hne rfl
  have hcon : ∀ actionId, (board.confirm actionId).begun=board.begun := by
    intro actionId
    unfold Board.confirm
    split
    · rfl
    · rfl
  cases c with
  | begin action actionId => exact hbeg action actionId hben
  | confirm actionId => exact absurd (hcon actionId) hben
  | cancel actionId => exact absurd rfl hben
  | apply update =>
    cases update with
    | intent actionId generation action => exact hbeg action actionId hben
    | confirm actionId generation => exact absurd (hcon actionId) hben
    | cancel actionId generation => exact absurd rfl hben
  | clear => exact absurd rfl hben

theorem store_faithful (as : List Action) (v : Viewers) (hrun : system.Run {} as v) : Faithful v := by
  have h:=invariant_of_run hrun
  constructor
  · exact h.displays.current
  · exact h.sequences
  · intro c now
    have hfol:=(call_follows h.ordered h.holds h.displays c now).2
    refine ⟨(v.store.call c now).2,rfl,?_,hfol.tells⟩
    rw [hfol.exactly_when]
    exact ⟨Or.inl,fun hany => hany.elim id (begun_front h.ordered c)⟩
  · intro after
    unfold ViewerPointerStore.since
    rw [h.events,h.latest]
  · intro after hne
    have hdif : ViewerPointerStore.requested after≠v.store.sequence := by rw [h.latest]; exact hne
    unfold Viewers.waitSince ViewerPointerStore.waitSince
    simp only [if_pos hdif]
    exact ⟨trivial,rfl⟩
  · intro after heq bs u hrun' waiter
    have hsam : ¬ViewerPointerStore.requested after≠v.store.sequence := by
      rw [h.latest]
      exact not_not.2 heq
    have hwai : waiter ∈ (v.waitSince after).store.waiters := by
      unfold Viewers.waitSince ViewerPointerStore.waitSince
      simp only [if_neg hsam]
      exact mem_append_right _ (mem_singleton_self _)
    have hcou:=course_of_run (h.waitSince after) hwai hrun'
    have hlog : (v.waitSince after).log=v.log := rfl
    rw [hlog] at hcou
    cases hcou with
    | waits hin hsam hfir => exact ⟨⟨fun _ => ⟨hsam,hfir⟩,fun _ => hin⟩,fun hout => absurd hin hout⟩
    | ended hout hwhy hgon =>
      refine ⟨⟨fun hin => absurd hin hout,?_⟩,fun _ => hgon⟩
      intro ⟨hsam',hfir⟩
      rcases hwhy with hlt | hin
      · rw [hsam'] at hlt
        exact absurd hlt (Nat.lt_irrefl _)
      · exact absurd hin hfir

def clickAt (x : ℚ) : ViewerPointerAction := { type := "click", x := some (.finite x), y := some (.finite 5) }

/-- Two clicks that are confirmed in the other order. -/
def confirmedLate : List Action :=
  [.call (.begin (clickAt 10) "pointer_action_1") 1,.call (.begin (clickAt 20) "pointer_action_2") 2,
    .call (.confirm "pointer_action_2") 3,.call (.confirm "pointer_action_1") 4]

/-- The front if only the last confirmed one counts. -/
def Board.lastFront (board : Board) : Option Candidate :=
  (board.pending.map Prod.snd++board.settled.head?.toList).argmax Candidate.order

theorem store_faithful_late : ∃ v, system.Run {} confirmedLate v ∧ Faithful v := by
  have hexe : ((system.exec {} confirmedLate).isSome)=true := by decide
  obtain ⟨v,hv⟩ := isSome_iff_exists.1 hexe
  exact ⟨v,TransitionSystem.run_of_exec hv,store_faithful confirmedLate v (TransitionSystem.run_of_exec hv)⟩

/-- The one confirmed last was begun before another confirmed one, and the other is shown. -/
theorem last_confirmed_not_shown :
    ¬∀ as v, system.Run {} as v →
      v.store.current.map ViewerPointerState.place=v.board.lastFront.map Candidate.place := by
  intro hall
  have hexe : (system.exec {} confirmedLate).map (fun v => v.store.current.map ViewerPointerState.place) =
      some (some (.click,20,5,1)) := by decide +kernel
  have hlas : (system.exec {} confirmedLate).map (fun v => v.board.lastFront.map Candidate.place) =
      some (some (.click,10,5,1)) := by decide +kernel
  obtain ⟨v,hv,hcur⟩ := map_eq_some_iff.1 hexe
  rw [hv] at hlas
  have hfro : v.board.lastFront.map Candidate.place=some (.click,10,5,1) := Option.some.inj hlas
  have hcla:=hall confirmedLate v (TransitionSystem.run_of_exec hv)
  rw [hcur,hfro] at hcla
  exact absurd hcla (by decide)

end Qubicl.Control.Pointer
