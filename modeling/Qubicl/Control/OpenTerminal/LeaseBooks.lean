import Qubicl.Control.OpenTerminal.Leases

/-!
# The books of the compatibility leases

Whose proof a state remembers: it comes from an acquisition of the same credential, and a state waits for one acquisition at
a time.
-/

namespace Qubicl.Control.OpenTerminal
open Foundation LeaseManager List

/-- The credential has acquired the proof itself. -/
def Owned (acquisitions : List Acquisition) (key : String) (proof : LeaseProof) : Prop :=
  ∃ a : ℕ, ∃ acquisition, acquisitions[a]? = some acquisition ∧ acquisition.key=key ∧ acquisition.result=.ok proof

def Pending (acquisitions : List Acquisition) (key : String) (a : ℕ) : Prop :=
  ∃ acquisition, acquisitions[a]? = some acquisition ∧ acquisition.key=key

/- Acquisitions are added, and of those that are there only the stage changes. -/
def Extends (acquisitions acquisitions' : List Acquisition) : Prop :=
  ∀ (a : ℕ) acquisition, acquisitions[a]? = some acquisition →
    ∃ stage, acquisitions'[a]? = some { acquisition with stage := stage }

theorem Extends.refl (acquisitions : List Acquisition) : Extends acquisitions acquisitions :=
  fun _ acquisition h => ⟨acquisition.stage,h⟩

variable {acquisitions acquisitions' : List Acquisition} {f : CompatibilityLeaseState → CompatibilityLeaseState}

theorem Extends.owned {key : String} {proof : LeaseProof} (h : Extends acquisitions acquisitions')
    (hown : Owned acquisitions key proof) : Owned acquisitions' key proof := by
  obtain ⟨a,acquisition,ha,hkey,hres⟩ := hown
  obtain ⟨stage,ha'⟩ := h a acquisition ha
  exact ⟨a,_,ha',hkey,hres⟩

theorem Extends.pending {key : String} {a : ℕ} (h : Extends acquisitions acquisitions')
    (hpen : Pending acquisitions key a) : Pending acquisitions' key a := by
  obtain ⟨acquisition,ha,hkey⟩ := hpen
  obtain ⟨stage,ha'⟩ := h a acquisition ha
  exact ⟨_,ha',hkey⟩

theorem extends_append (acquisitions added : List Acquisition) : Extends acquisitions (acquisitions++added) := by
  intro a acquisition ha
  obtain ⟨hlt,-⟩ := List.getElem?_eq_some_iff.1 ha
  exact ⟨acquisition.stage,by rw [getElem?_append_left hlt]; exact ha⟩

theorem extends_stage (acquisitions : List Acquisition) (a : ℕ) (stage : AcquisitionStage) :
    Extends acquisitions (acquisitions.modify a fun acquisition => { acquisition with stage := stage }) := by
  intro a' acquisition ha
  by_cases heq : a=a'
  · subst heq
    exact ⟨stage,by rw [getElem?_modify_eq,ha]; rfl⟩
  · exact ⟨acquisition.stage,by rw [getElem?_modify_ne _ _ heq]; exact ha⟩

structure Books (w : Compatibility) : Prop where
  mapped : ∀ key i, (key,i) ∈ w.leases → ∃ state, w.states[i]? = some state ∧ state.key=key
  remembered : ∀ (i : ℕ) state proof, w.states[i]? = some state → state.proof=some proof →
    Owned w.acquisitions state.key proof
  pending : ∀ (i : ℕ) state a, w.states[i]? = some state → state.acquiring=some a → Pending w.acquisitions state.key a
  acquired : ∀ (a : ℕ) acquisition, w.acquisitions[a]? = some acquisition → ∃ state,
    w.states[acquisition.state]? = some state ∧ state.key=acquisition.key ∧
      (acquisition.stage=.finished ∨ state.acquiring=some a)
  used : ∀ use ∈ w.uses, Owned w.acquisitions use.1 use.2

section Books
variable {w w' : Compatibility} {key : String} {i a : ℕ}

theorem Books.same (h : Books w) (hlea : w'.leases=w.leases) (hsta : w'.states=w.states)
    (hacq : w'.acquisitions=w.acquisitions) (huse : w'.uses=w.uses) : Books w' := by
  cases w'
  subst hlea hsta hacq huse
  exact ⟨h.mapped,h.remembered,h.pending,h.acquired,h.used⟩

theorem getElem?_modify_cases {α : Type} {l : List α} {f : α → α} {j : ℕ} {x : α} (h : (l.modify i f)[j]? = some x) :
    (i=j ∧ ∃ y, l[j]? = some y ∧ f y=x) ∨ (i≠j ∧ l[j]? = some x) := by
  by_cases heq : i=j
  · subst heq
    rw [getElem?_modify_eq] at h
    obtain ⟨y,hy,hx⟩ := Option.map_eq_some_iff.1 h
    exact .inl ⟨rfl,y,hy,hx⟩
  · rw [getElem?_modify_ne _ _ heq] at h
    exact .inr ⟨heq,h⟩

theorem Books.change (h : Books w) (hext : Extends w.acquisitions acquisitions)
    (hkey : ∀ state, (f state).key=state.key)
    (hpro : ∀ state proof, w.states[i]? = some state → (f state).proof=some proof → Owned acquisitions state.key proof)
    (hpen : ∀ state a, w.states[i]? = some state → (f state).acquiring=some a → Pending acquisitions state.key a)
    (hacq : ∀ (a : ℕ) acquisition, acquisitions[a]? = some acquisition → ∃ state,
      w.states[acquisition.state]? = some state ∧ state.key=acquisition.key ∧
        (acquisition.stage=.finished ∨ (if i=acquisition.state then f state else state).acquiring=some a)) :
    Books ({ w with acquisitions := acquisitions }.modifyState i f) := by
  refine ⟨?_,?_,?_,?_,?_⟩
  · intro key j hj
    obtain ⟨state,hsta,hmap⟩ := h.mapped key j hj
    by_cases heq : i=j
    · subst heq
      exact ⟨f state,by show (w.states.modify _ _)[_]? = _; rw [getElem?_modify_eq,hsta]; rfl,
        (hkey state).trans hmap⟩
    · exact ⟨state,by show (w.states.modify _ _)[_]? = _; rw [getElem?_modify_ne _ _ heq]; exact hsta,hmap⟩
  · intro j state proof hsta hmem
    rcases getElem?_modify_cases hsta with ⟨rfl,before,hbef,rfl⟩ | ⟨-,hbef⟩
    · rw [hkey]
      exact hpro before proof hbef hmem
    · exact hext.owned (h.remembered j state proof hbef hmem)
  · intro j state a hsta hmem
    rcases getElem?_modify_cases hsta with ⟨rfl,before,hbef,rfl⟩ | ⟨-,hbef⟩
    · rw [hkey]
      exact hpen before a hbef hmem
    · exact hext.pending (h.pending j state a hbef hmem)
  · intro a acquisition ha
    obtain ⟨state,hsta,hown,hope⟩ := hacq a acquisition ha
    by_cases heq : i=acquisition.state
    · rw [if_pos heq] at hope
      exact ⟨f state,by show (w.states.modify _ _)[_]? = _; rw [heq,getElem?_modify_eq,hsta]; rfl,
        (hkey state).trans hown,hope⟩
    · rw [if_neg heq] at hope
      exact ⟨state,by show (w.states.modify _ _)[_]? = _; rw [getElem?_modify_ne _ _ heq]; exact hsta,hown,hope⟩
  · intro use huse
    exact hext.owned (h.used use huse)

theorem Books.modifyState (h : Books w) (hkey : ∀ state, (f state).key=state.key)
    (hacq : ∀ state, (f state).acquiring=state.acquiring)
    (hpro : ∀ state proof, w.states[i]? = some state → (f state).proof=some proof →
      Owned w.acquisitions state.key proof) : Books (w.modifyState i f) := by
  refine h.change (.refl _) hkey hpro ?_ ?_
  · intro state a hsta hmem
    exact h.pending i state a hsta ((hacq state).symm.trans hmem)
  · intro a acquisition ha
    obtain ⟨state,hsta,hown,hope⟩ := h.acquired a acquisition ha
    refine ⟨state,hsta,hown,hope.imp_right fun hwai => ?_⟩
    split
    · exact (hacq state).trans hwai
    · exact hwai

theorem Books.forget (h : Books w) (i : ℕ) : Books (w.forget i) :=
  h.modifyState (fun _ => rfl) (fun _ => rfl) fun _ _ _ hpro => (by cases hpro)

theorem Books.touch (h : Books w) (i : ℕ) (now : ℤ) :
    Books (w.modifyState i fun state => { state with touchedAt := now }) :=
  h.modifyState (fun _ => rfl) (fun _ => rfl) fun state proof hsta hpro => h.remembered i state proof hsta hpro

theorem Books.clear (h : Books w) {leases : List (String × ℕ)} (hsub : ∀ entry ∈ leases, entry ∈ w.leases) :
    Books { w with leases := leases } :=
  ⟨fun key i hmem => h.mapped key i (hsub _ hmem),h.remembered,h.pending,h.acquired,h.used⟩

theorem Books.addState (h : Books w) (key : String) : Books (w.addState key).2 := by
  have hold : ∀ {i : ℕ} {state}, w.states[i]? = some state → (w.addState key).2.states[i]? = some state := by
    intro i state hsta
    obtain ⟨hlt,-⟩ := List.getElem?_eq_some_iff.1 hsta
    exact (getElem?_append_left hlt).trans hsta
  -- the new state remembers nothing and waits for nothing
  have hcas : ∀ {i : ℕ} {state}, (w.addState key).2.states[i]? = some state →
      w.states[i]? = some state ∨ state=⟨key,none,none,w.manager.now⟩ := by
    intro i state hsta
    rcases mem_append.1 (mem_of_getElem? hsta) with _ | hnew
    · rcases Nat.lt_or_ge i w.states.length with hlt | hge
      · exact .inl ((getElem?_append_left hlt).symm.trans hsta)
      · have hlas : ([⟨key,none,none,w.manager.now⟩] : List CompatibilityLeaseState)[i - w.states.length]? = some state :=
          (getElem?_append_right hge).symm.trans hsta
        exact .inr (mem_singleton.1 (mem_of_getElem? hlas))
    · exact .inr (mem_singleton.1 hnew)
  refine ⟨?_,?_,?_,?_,h.used⟩
  · intro key' i hmem
    rcases mem_append.1 hmem with hmem | hnew
    · obtain ⟨state,hsta,hkey⟩ := h.mapped key' i hmem
      exact ⟨state,hold hsta,hkey⟩
    · cases mem_singleton.1 hnew
      exact ⟨_,getElem?_concat_length ..,rfl⟩
  · intro i state proof hsta hpro
    rcases hcas hsta with hsta | rfl
    · exact h.remembered i state proof hsta hpro
    · cases hpro
  · intro i state a hsta hpen
    rcases hcas hsta with hsta | rfl
    · exact h.pending i state a hsta hpen
    · cases hpen
  · intro a acquisition ha
    obtain ⟨state,hsta,hown,hope⟩ := h.acquired a acquisition ha
    exact ⟨state,hold hsta,hown,hope⟩

end Books

section EnsureLease
variable {w v : Compatibility} {key : String} {i : ℕ}

structure Aside (w v : Compatibility) : Prop where
  manager : v.manager=w.manager
  browserCapable : v.browserCapable=w.browserCapable
  acquisitions : v.acquisitions=w.acquisitions
  requests : v.requests=w.requests
  uses : v.uses=w.uses

theorem currentLeaseState_cases (h : w.currentLeaseState key=some (i,v)) :
    (w.leases.lookup key=some i ∧ v=w) ∨
      ∃ leases, (∀ entry ∈ leases, entry ∈ w.leases) ∧
        Compatibility.addState key { w with leases := leases } = (i,v) ∧ leases.lookup key=none := by
  unfold Compatibility.currentLeaseState at h
  split at h
  next hloo =>
    cases h
    exact .inl ⟨hloo,rfl⟩
  next hnon =>
    split at h
    · cases h
      exact .inr ⟨w.leases,fun _ hmem => hmem,rfl,hnon⟩
    · obtain ⟨oldest,-,hadd⟩ := Option.map_eq_some_iff.1 h
      refine .inr ⟨mapDelete oldest.1 w.leases,fun entry hmem => (mem_filter.1 hmem).1,hadd,?_⟩
      rw [lookup_mapDelete,hnon,ite_self]

theorem currentLeaseState_aside (h : w.currentLeaseState key=some (i,v)) : Aside w v := by
  rcases currentLeaseState_cases h with ⟨-,rfl⟩ | ⟨leases,-,hadd,-⟩
  · exact ⟨rfl,rfl,rfl,rfl,rfl⟩
  · cases hadd
    exact ⟨rfl,rfl,rfl,rfl,rfl⟩

theorem currentLeaseState_books (hw : Books w) (h : w.currentLeaseState key=some (i,v)) :
    Books v ∧ ∃ state, v.states[i]? = some state ∧ state.key=key := by
  rcases currentLeaseState_cases h with ⟨hloo,rfl⟩ | ⟨leases,hsub,hadd,-⟩
  · exact ⟨hw,hw.mapped key i (mem_of_lookup hloo)⟩
  · cases hadd
    exact ⟨(hw.clear hsub).addState key,_,getElem?_concat_length ..,rfl⟩

inductive Ensured (acquisitions : List Acquisition) (attempt : ℕ) (key : String) : Phase → Prop
  | limit : Ensured acquisitions attempt key (.ended (.failed sessionLimit))
  | acquiring {a : ℕ} (pending : Pending acquisitions key a) : Ensured acquisitions attempt key (.acquiring attempt a)
  | holding {proof : LeaseProof} (owned : Owned acquisitions key proof) :
      Ensured acquisitions attempt key (.holding attempt proof)

theorem acquireLease_aside (actor : CompatibilityActor) (draw : Draw) (w : Compatibility) :
    ∃ manager, (w.acquireLease actor draw).1 = { w with manager := manager } := by
  unfold Compatibility.acquireLease
  split
  · exact ⟨w.manager,rfl⟩
  · exact ⟨_,rfl⟩

theorem Books.ask (h : Books w) {state : CompatibilityLeaseState} (hsta : w.states[i]? = some state)
    (hidl : state.acquiring=none) (result : Except QubiclError LeaseProof) :
    Books (Compatibility.modifyState i (fun state => { state with acquiring := some w.acquisitions.length })
      { w with acquisitions := w.acquisitions++[⟨i,state.key,result,.requested⟩] }) := by
  let asked : Acquisition := ⟨i,state.key,result,.requested⟩
  have hlas : (w.acquisitions++[asked])[w.acquisitions.length]? = some asked := getElem?_concat_length ..
  have hext:=extends_append w.acquisitions [asked]
  refine h.change hext (fun _ => rfl) ?_ ?_ ?_
  · intro state' proof hsta' hpro
    exact hext.owned (h.remembered i state' proof hsta' hpro)
  · intro state' a hsta' ha
    obtain rfl : w.acquisitions.length=a := Option.some.inj ha
    obtain rfl : state=state' := Option.some.inj (hsta.symm.trans hsta')
    exact ⟨_,hlas,rfl⟩
  · intro a acquisition ha
    rcases Nat.lt_or_ge a w.acquisitions.length with hlt | hge
    · rw [getElem?_append_left hlt] at ha
      obtain ⟨state',hsta',hown,hope⟩ := h.acquired a acquisition ha
      refine ⟨state',hsta',hown,?_⟩
      rcases hope with hfin | hwaits
      · exact .inl hfin
      · -- the state that asks has not waited for another promise
        by_cases heq : i=acquisition.state
        · subst heq
          obtain rfl : state=state' := Option.some.inj (hsta.symm.trans hsta')
          rw [hidl] at hwaits
          cases hwaits
        · rw [if_neg heq]
          exact .inr hwaits
    · obtain ⟨hlt,-⟩ := List.getElem?_eq_some_iff.1 ha
      rw [length_append,length_singleton] at hlt
      obtain rfl : w.acquisitions.length=a := by omega
      obtain rfl : asked=acquisition := Option.some.inj (hlas.symm.trans ha)
      refine ⟨state,hsta,rfl,.inr ?_⟩
      rw [if_pos rfl]

theorem ensureLease_spec (hw : Books w) (c attempt : ℕ) (key : String) (actor : CompatibilityActor) (draw : Draw) :
    ∃ phase w', w.ensureLease c attempt key actor draw=w'.setPhase c phase ∧ Books w' ∧
      Extends w.acquisitions w'.acquisitions ∧ w'.browserCapable=w.browserCapable ∧ w'.requests=w.requests ∧
        Ensured w'.acquisitions attempt key phase := by
  unfold Compatibility.ensureLease
  split
  next => exact ⟨_,w,rfl,hw,.refl _,rfl,rfl,.limit⟩
  next i v hcur =>
    have hasi:=currentLeaseState_aside hcur
    obtain ⟨hboo,state,hsta,hkey⟩ := currentLeaseState_books hw hcur
    have htod : (v.states.modify i fun state => { state with touchedAt := v.manager.now })[i]? =
        some { state with touchedAt := v.manager.now } := by
      rw [getElem?_modify_eq,hsta]
      rfl
    have htou:=hboo.touch i v.manager.now
    dsimp only
    generalize hu : v.modifyState i (fun state => { state with touchedAt := v.manager.now })=u at htou
    have huac : u.acquisitions=w.acquisitions := by rw [← hu]; exact hasi.acquisitions
    have huca : u.browserCapable=w.browserCapable := by rw [← hu]; exact hasi.browserCapable
    have hure : u.requests=w.requests := by rw [← hu]; exact hasi.requests
    have hust : u.states[i]? = some { state with touchedAt := v.manager.now } := by rw [← hu]; exact htod
    have hext : Extends w.acquisitions u.acquisitions := by rw [huac]; exact .refl _
    split
    next hnon =>
      rw [hust] at hnon
      cases hnon
    next state' hsta' =>
      obtain rfl := Option.some.inj (hust.symm.trans hsta')
      split
      next proof hpro =>
        refine ⟨_,u,rfl,htou,hext,huca,hure,.holding ?_⟩
        rw [← hkey]
        exact htou.remembered i { state with touchedAt := v.manager.now } proof hust hpro
      next a hpro hacq =>
        refine ⟨_,u,rfl,htou,hext,huca,hure,.acquiring ?_⟩
        rw [← hkey]
        exact htou.pending i { state with touchedAt := v.manager.now } a hust hacq
      next hpro hacq =>
        obtain ⟨manager,hman⟩ := acquireLease_aside actor draw u
        have hasd : Books { u with manager := manager } := htou.same rfl rfl rfl rfl
        have hask:=hasd.ask hust hacq (u.acquireLease actor draw).2
        rw [hman]
        refine ⟨_,_,rfl,?_,?_,huca,hure,.acquiring ?_⟩
        · rw [← hkey]
          exact hask
        · rw [← huac]
          exact extends_append _ _
        · exact ⟨_,getElem?_concat_length ..,rfl⟩

end EnsureLease

section Promises
variable {w w' : Compatibility} {a : ℕ}

theorem storeProof_books (hw : Books w) (h : w.storeProof a=some w') :
    Books w' ∧ Extends w.acquisitions w'.acquisitions ∧ w'.browserCapable=w.browserCapable ∧ w'.requests=w.requests := by
  unfold Compatibility.storeProof at h
  split at h
  swap
  · cases h
  next acquisition ha =>
    split at h
    swap
    · cases h
    next hsta =>
      have hext:=extends_stage w.acquisitions a .stored
      -- the acquisition is still to be finished, so its state waits for it
      have hsto : ∀ (b : ℕ) acquired, (w.acquisitions.modify a fun acquisition => { acquisition with stage := .stored })[b]? =
          some acquired → ∃ state, w.states[acquired.state]? = some state ∧ state.key=acquired.key ∧
            (acquired.stage=.finished ∨ state.acquiring=some b) := by
        intro b acquired hb
        rcases getElem?_modify_cases hb with ⟨rfl,before,hbef,rfl⟩ | ⟨-,hbef⟩
        · obtain rfl := Option.some.inj (ha.symm.trans hbef)
          obtain ⟨state,hste,hown,hope⟩ := hw.acquired a acquisition ha
          rw [hsta] at hope
          exact ⟨state,hste,hown,.inr (hope.resolve_left fun heq => by cases heq)⟩
        · exact hw.acquired b acquired hbef
      dsimp only at h
      split at h
      next proof hres =>
        cases h
        refine ⟨hw.change hext (fun _ => rfl) ?_ ?_ ?_,hext,rfl,rfl⟩
        · intro state kept hste hkep
          obtain rfl : proof=kept := Option.some.inj hkep
          obtain ⟨state',hsta',hown,-⟩ := hw.acquired a acquisition ha
          obtain rfl := Option.some.inj (hste.symm.trans hsta')
          exact hext.owned ⟨a,acquisition,ha,hown.symm,hres⟩
        · intro state b hste hpen
          exact hext.pending (hw.pending _ state b hste hpen)
        · intro b acquired hb
          obtain ⟨state,hste,hown,hope⟩ := hsto b acquired hb
          refine ⟨state,hste,hown,hope.imp_right fun hwai => ?_⟩
          split
          · exact hwai
          · exact hwai
      next hres =>
        cases h
        refine ⟨⟨hw.mapped,?_,?_,hsto,?_⟩,hext,rfl,rfl⟩
        · intro i state proof hste hpro
          exact hext.owned (hw.remembered i state proof hste hpro)
        · intro i state b hste hpen
          exact hext.pending (hw.pending i state b hste hpen)
        · intro use huse
          exact hext.owned (hw.used use huse)

theorem finishAcquiring_books (hw : Books w) (h : w.finishAcquiring a=some w') :
    Books w' ∧ Extends w.acquisitions w'.acquisitions ∧ w'.browserCapable=w.browserCapable ∧ w'.requests=w.requests := by
  unfold Compatibility.finishAcquiring at h
  split at h
  swap
  · cases h
  next acquisition ha =>
    split at h
    swap
    · cases h
    next hsta =>
      cases h
      have hext:=extends_stage w.acquisitions a .finished
      refine ⟨hw.change hext (fun _ => rfl) ?_ ?_ ?_,hext,rfl,rfl⟩
      · intro state proof hste hpro
        exact hext.owned (hw.remembered _ state proof hste hpro)
      · intro state b hste hpen
        cases hpen
      · intro b acquired hb
        rcases getElem?_modify_cases hb with ⟨rfl,before,hbef,rfl⟩ | ⟨-,hbef⟩
        · obtain rfl := Option.some.inj (ha.symm.trans hbef)
          obtain ⟨state,hste,hown,-⟩ := hw.acquired a acquisition ha
          exact ⟨state,hste,hown,.inl rfl⟩
        · obtain ⟨state,hste,hown,hope⟩ := hw.acquired b acquired hbef
          refine ⟨state,hste,hown,?_⟩
          rcases hope with hfin | hwaits
          · exact .inl hfin
          · -- a state waits for one promise at a time
            by_cases heq : acquisition.state=acquired.state
            · obtain ⟨state',hsta',-,hope'⟩ := hw.acquired a acquisition ha
              rw [heq] at hsta'
              obtain rfl := Option.some.inj (hste.symm.trans hsta')
              rw [hsta] at hope'
              have hsam:=hope'.resolve_left fun heq => by cases heq
              obtain rfl : b=a := Option.some.inj (hwaits.symm.trans hsam)
              rw [getElem?_modify_eq,ha] at hb
              exact .inl (Option.some.inj hb ▸ rfl)
            · rw [if_neg heq]
              exact .inr hwaits

end Promises

end Qubicl.Control.OpenTerminal
