import Mathlib.Algebra.GroupWithZero.Nat
import Qubicl.Cli.StateLock.Records

/-!
# Abandoned locks

All processes that ran `withStateLock` are dead and the grace period is over.
-/

namespace Qubicl.Cli
open Foundation LockState List Option

/- What the system answers to the calls of a process that runs alone, and how
much time passes after each. -/
structure Answers where
  draw : LockState → Draw
  delay : LockState → ℕ
  unused : ∀ s : LockState, s.unusedId (draw s).id=true ∧ s.unusedNonce (draw s).nonce=true

/-- One call inside `acquireStateLock`. -/
def soloStep (a : Answers) (p : ℕ) (s : LockState) : Option LockState :=
  match s.procs p with
  | .alive .idle | .alive (.holding _) => none
  | _ => (s.call p (a.draw s)).map fun t => { t with now := t.now+a.delay t }

def solo (a : Answers) (p : ℕ) : ℕ → LockState → Option LockState
  | 0, s => some s
  | n+1, s => (soloStep a p s).bind fun t => solo a p n t

/-- `acquireStateLock` returns an owner. -/
def Obtains (a : Answers) (p : ℕ) (s : LockState) : Prop :=
  ∃ n t owner, solo a p n s=some t ∧ t.procs p=.alive (.holding owner)

variable {t : LockState} {f g : LockFile} {held owner : LockOwner} {pc : Pc} {q : Option ℕ}

theorem Obtains.step {a : Answers} {p : ℕ} {s : LockState} (hs : soloStep a p s=some t) (h : Obtains a p t) :
    Obtains a p s := by
  obtain ⟨n,u,owner,hu,ho⟩ := h
  exact ⟨n+1,u,owner,by rw [solo,hs]; exact hu,ho⟩

structure At (p : ℕ) (pc : Pc) (file : LockPath → Option LockFile) (since : ℕ)
    (s : LockState) : Prop where
  pc : s.procs p=.alive pc
  alone : ∀ q, q≠p → s.processAlive q=false
  file : s.file=file
  now : since ≤ s.now

section Steps
variable {a : Answers} {p since : ℕ} {file : LockPath → Option LockFile} {s : LockState}

theorem At.goto (h : At p pc file since s) (pc' : Pc) : At p pc' file since (s.goto p pc') := by
  refine ⟨procs_self s p pc',?_,h.file,h.now⟩
  intro q hq
  unfold processAlive
  rw [procs_other s pc' hq]
  exact h.alone q hq

theorem At.setFile (h : At p pc file since s) (path : LockPath) (f : Option LockFile) :
    At p pc (Function.update file path f) since (s.setFile path f) := by
  refine ⟨h.pc,h.alone,?_,h.now⟩
  show Function.update s.file path f=Function.update file path f
  rw [h.file]

theorem At.congr (h : At p pc file since s) (hp : t.procs=s.procs) (hf : t.file=s.file) (hn : s.now≤t.now) :
    At p pc file since t := by
  refine ⟨hp ▸ h.pc,?_,hf.trans h.file,Nat.le_trans h.now hn⟩
  intro q hq
  unfold processAlive
  rw [hp]
  exact h.alone q hq

theorem At.obtains {pc' : Pc} {file' : LockPath → Option LockFile} (h : At p pc file since s)
    (hmov : pc≠.idle ∧ ∀ owner, pc≠.holding owner) (hcal : s.call p (a.draw s)=some t) (ht : At p pc' file' since t)
    (hres : ∀ u, At p pc' file' since u → Obtains a p u) : Obtains a p s := by
  have hste : soloStep a p s=some { t with now := t.now+a.delay t } := by
    unfold soloStep
    rw [h.pc,hcal]
    cases pc with
    | idle => exact absurd rfl hmov.1
    | holding owner => exact absurd rfl (hmov.2 owner)
    | _ => rfl
  exact .step hste (hres _ (ht.congr rfl rfl (Nat.le_add_right _ _)))

theorem At.holding (h : At p (.holding owner) file since s) :
    Obtains a p s := ⟨0,s,owner,rfl,h.pc⟩

theorem At.created {site : Site} (h : At p (.create site) file since s)
    (free : file site.path=none)
    (hres : ∀ (owner : LockOwner) (f : LockFile) (t : LockState), f.id=owner.id →
      f.text=.record (some p) (some owner.nonce) →
      At p (LockState.created site owner) (Function.update file site.path (some f)) since t →
      Obtains a p t) : Obtains a p s := by
  -- the record, written in one piece or after the first piece
  have hlas : ∀ (owner : LockOwner) (f : LockFile) (t : LockState), f.id=owner.id →
      f.serial=owner.serial →
      At p (.write site owner true) (Function.update file site.path (some f)) since t →
      Obtains a p t := by
    intro owner f t hid hser ht
    have hf : t.file site.path=some f := by
      rw [ht.file]
      exact Function.update_self ..
    refine ht.obtains ⟨nofun,nofun⟩ (t := t.writeCall p site owner true (a.draw t))
      (by unfold call; rw [ht.pc]) ?_ (hres owner { f with
        text := .record (some p) (some owner.nonce), mtime := t.now } · hid rfl)
    unfold writeCall writeTo
    simp only [Bool.not_true,Bool.and_false,Bool.false_eq_true,if_false,hf,if_pos hser]
    have := (ht.setFile site.path (some { f with
      text := .record (some p) (some owner.nonce), mtime := t.now })).goto (LockState.created site owner)
    rw [Function.update_idem] at this
    exact this
  have hwri : ∀ (owner : LockOwner) (f : LockFile) (t : LockState), f.id=owner.id →
      f.serial=owner.serial →
      At p (.write site owner false) (Function.update file site.path (some f)) since t →
      Obtains a p t := by
    intro owner f t hid hser ht
    have hf : t.file site.path=some f := by
      rw [ht.file]
      exact Function.update_self ..
    have hcal : t.call p (a.draw t)=some (t.writeCall p site owner false (a.draw t)) := by
      unfold call
      rw [ht.pc]
    have hset : ∀ text pc', At p pc' (Function.update file site.path
        (some { f with text := text, mtime := t.now })) since
        ((t.setFile site.path (some { f with text := text, mtime := t.now })).goto p pc') := by
      intro text pc'
      have := (ht.setFile site.path (some { f with text := text, mtime := t.now })).goto pc'
      rw [Function.update_idem] at this
      exact this
    by_cases htor : (a.draw t).torn=true
    · refine ht.obtains ⟨nofun,nofun⟩ hcal ?_ (hlas owner { f with
        text := .torn, mtime := t.now } · hid hser)
      unfold writeCall writeTo
      simp only [htor,Bool.not_false,Bool.and_true,if_true,hf,if_pos hser]
      exact hset _ _
    · refine ht.obtains ⟨nofun,nofun⟩ hcal ?_ (hres owner { f with
        text := .record (some p) (some owner.nonce), mtime := t.now } · hid rfl)
      unfold writeCall writeTo
      simp only [htor,Bool.not_false,Bool.and_true,hf,if_pos hser]
      exact hset _ _
  have hope : s.file site.path=none := by
    rw [h.file]
    exact free
  have hcal : s.call p (a.draw s)=s.createCall p site (a.draw s) := by
    unfold call
    rw [h.pc]
  unfold createCall at hcal
  rw [hope] at hcal
  simp only [a.unused s,Bool.and_self,if_true] at hcal
  refine h.obtains ⟨nofun,nofun⟩ hcal (At.congr ((h.setFile site.path _).goto _) rfl rfl
    (Nat.le_refl s.now)) ?_
  intro t ht
  refine ht.obtains ⟨nofun,nofun⟩ (by unfold call; rw [ht.pc]) (ht.goto _) ?_
  intro u hu
  exact hwri _ _ u rfl rfl hu

theorem At.reclaimer_released (h : At p (.close (.reclaimer held (some owner))) file since s)
    (hf : file .reclaim=some f) (hid : f.id=held.id) (ht : f.text=.record q (some held.nonce)) : Obtains a p s := by
  have hclo : s.call p (a.draw s)=some
      { s.goto p (.compare (.reclaimer held (some owner))) with
        handles := s.handles.erase (p,held.id) } := by
    unfold call
    rw [h.pc]
    rfl
  refine h.obtains ⟨nofun,nofun⟩ hclo (At.congr (h.goto _) rfl rfl (Nat.le_refl s.now)) ?_
  intro t h
  have hcom : t.call p (a.draw t) =
      some (t.goto p (.compareNonce (.reclaimer held (some owner)) held.nonce)) := by
    unfold call
    rw [h.pc]
    unfold compareCall
    simp [Removal.path,Removal.expected,LockOwner.snapshot,h.file,hf,hid]
  refine h.obtains ⟨nofun,nofun⟩ hcom (h.goto _) ?_
  intro t h
  have hnon : t.call p (a.draw t) =
      some (t.goto p (.unlink (.reclaimer held (some owner)))) := by
    unfold call
    rw [h.pc]
    unfold compareNonceCall
    simp [Removal.path,h.file,hf,ht]
  refine h.obtains ⟨nofun,nofun⟩ hnon (h.goto _) ?_
  intro t h
  refine h.obtains ⟨nofun,nofun⟩ (by unfold call; rw [h.pc]) ((h.setFile _ _).goto _) ?_
  intro t h
  exact h.holding

theorem At.reclaimed (h : At p (.create (.reclaimed held)) file since s) (free : file .lock=none)
    (hf : file .reclaim=some f) (hid : f.id=held.id) (ht : f.text=.record q (some held.nonce)) : Obtains a p s := by
  refine h.created free ?_
  intro owner g t _ _ hclo
  have hrec : Function.update file .lock (some g) .reclaim=some f := by
    rw [Function.update_of_ne (by decide)]
    exact hf
  exact hclo.reclaimer_released hrec hid ht

def NonceOf (f : LockFile) (nonce : Option ℕ) : Prop :=
  nonce=none ∨ ∃ k owner, nonce=some k ∧ f.text=.record owner (some k)

theorem At.removes {nonce : Option ℕ} (h : At p (.compare (.stale held ⟨g.id,nonce⟩)) file since s)
    (hg : file .lock=some g) (hn : NonceOf g nonce) (hf : file .reclaim=some f) (hid : f.id=held.id)
    (ht : f.text=.record q (some held.nonce)) : Obtains a p s := by
  have hunl : ∀ t, At p (.unlink (.stale held ⟨g.id,nonce⟩)) file since t → Obtains a p t := by
    intro t h
    refine h.obtains ⟨nofun,nofun⟩ (by unfold call; rw [h.pc]) ((h.setFile _ _).goto _) ?_
    intro t h
    refine h.reclaimed (Function.update_self ..) ?_ hid ht
    show Function.update file .lock none .reclaim=some f
    rw [Function.update_of_ne (by decide)]
    exact hf
  rcases hn with rfl | ⟨k,owner,rfl,htex⟩
  · have hcom : s.call p (a.draw s)=some (s.goto p (.unlink (.stale held ⟨g.id,none⟩))) := by
      unfold call
      rw [h.pc]
      unfold compareCall
      simp [Removal.path,Removal.expected,h.file,hg]
    exact h.obtains ⟨nofun,nofun⟩ hcom (h.goto _) hunl
  · have hcom : s.call p (a.draw s) =
        some (s.goto p (.compareNonce (.stale held ⟨g.id,some k⟩) k)) := by
      unfold call
      rw [h.pc]
      unfold compareCall
      simp [Removal.path,Removal.expected,h.file,hg]
    refine h.obtains ⟨nofun,nofun⟩ hcom (h.goto _) ?_
    intro t h
    have hnon : t.call p (a.draw t) =
        some (t.goto p (.unlink (.stale held ⟨g.id,some k⟩))) := by
      unfold call
      rw [h.pc]
      unfold compareNonceCall
      simp [Removal.path,h.file,hg,htex]
    exact h.obtains ⟨nofun,nofun⟩ hnon (h.goto _) hunl

theorem At.found_stale {round : Round} (h : At p (.lstat round) file since s) (hg : file .lock=some g)
    (hold : g.mtime+gracePeriod ≤ since) (hoth : ∀ owner nonce, g.text=.record (some owner) nonce → owner≠p)
    (hres : ∀ nonce, NonceOf g nonce → ∀ t,
      At p (stale round ⟨g.id,nonce⟩) file since t → Obtains a p t) : Obtains a p s := by
  have hlst : s.call p (a.draw s)=some (s.goto p (.read round ⟨g.id,g.mtime⟩)) := by
    unfold call
    rw [h.pc]
    simp [h.file,hg]
  refine h.obtains ⟨nofun,nofun⟩ hlst (h.goto _) ?_
  intro t h
  have hrea : t.call p (a.draw t)=some (t.readCall p round ⟨g.id,g.mtime⟩) := by
    unfold call
    rw [h.pc]
  have hclo : ∀ nonce, NonceOf g nonce → ∀ u,
      At p (.clock round ⟨g.id,g.mtime⟩ nonce) file since u → Obtains a p u := by
    intro nonce hn u hu
    have hage : ¬ u.now - g.mtime<gracePeriod := by
      have := hu.now
      omega
    have hcal : u.call p (a.draw u)=some (u.goto p (stale round ⟨g.id,nonce⟩)) := by
      unfold call
      rw [hu.pc]
      exact if_neg hage
    exact hu.obtains ⟨nofun,nofun⟩ hcal (hu.goto _) (hres nonce hn)
  cases htex : g.text with
  | empty =>
    refine h.obtains ⟨nofun,nofun⟩ hrea ?_ (hclo none (.inl rfl))
    simp only [readCall,h.file,hg,htex]
    exact h.goto _
  | torn =>
    refine h.obtains ⟨nofun,nofun⟩ hrea ?_ (hclo none (.inl rfl))
    simp only [readCall,h.file,hg,htex]
    exact h.goto _
  | record owner nonce =>
    have hn : NonceOf g nonce := by
      cases nonce with
      | none => exact .inl rfl
      | some k => exact .inr ⟨k,owner,rfl,htex⟩
    cases owner with
    | none =>
      refine h.obtains ⟨nofun,nofun⟩ hrea ?_ (hclo nonce hn)
      simp only [readCall,h.file,hg,htex]
      exact h.goto _
    | some owner =>
      have hkil : At p (.kill round ⟨g.id,g.mtime⟩ owner nonce) file since
          (t.readCall p round ⟨g.id,g.mtime⟩) := by
        simp only [readCall,h.file,hg,htex]
        exact h.goto _
      refine h.obtains ⟨nofun,nofun⟩ hrea hkil ?_
      · intro u hu
        have hdea:=hu.alone owner (hoth owner nonce htex)
        have hcal : u.call p (a.draw u)=some (u.goto p (stale round ⟨g.id,nonce⟩)) := by
          unfold call
          rw [hu.pc]
          simp [hdea]
        exact hu.obtains ⟨nofun,nofun⟩ hcal (hu.goto _) (hres nonce hn)

theorem At.obtains_lock (h : At p (.create .first) file since s)
    (hloc : ∀ g, file .lock=some g → file .reclaim=none ∧ g.mtime+gracePeriod ≤ since ∧
      ∀ owner nonce, g.text=.record (some owner) nonce → owner≠p) : Obtains a p s := by
  cases hg : file .lock with
  | none => exact h.created hg (fun _ _ _ _ _ ht => ht.holding)
  | some g =>
    obtain ⟨hrec,hold,hoth⟩ := hloc g hg
    have hcre : s.call p (a.draw s)=some (s.goto p (.lstat .first)) := by
      unfold call
      rw [h.pc]
      unfold createCall
      simp [Site.path,existing,h.file,hg]
    refine h.obtains ⟨nofun,nofun⟩ hcre (h.goto _) ?_
    intro t h
    refine h.found_stale hg hold hoth ?_
    intro _ _ u hu
    refine @At.created _ _ _ _ _ .reclaimer hu hrec ?_
    intro owner f v hid htex hv
    have hg' : Function.update file .reclaim (some f) .lock=some g := by
      rw [Function.update_of_ne (by decide)]
      exact hg
    refine hv.found_stale hg' hold hoth ?_
    intro nonce hn w hw
    exact hw.removes hg' hn (Function.update_self ..) hid htex

end Steps

def Pc.refusedPath : Pc → Prop
  | .idle | .create .first | .create .reclaimer | .lstat .first | .read .first _
  | .kill .first _ _ _ | .clock .first _ _ => True
  | _ => False

structure Wedged (p : ℕ) (s : LockState) : Prop where
  lock : (s.file .lock).isSome
  reclaim : (s.file .reclaim).isSome
  pc : ∃ pc, s.procs p=.alive pc ∧ pc.refusedPath

theorem Wedged.goto {p : ℕ} {s : LockState} (h : Wedged p s) (hpc : pc.refusedPath) (handles : List (ℕ × FileId)) :
    Wedged p { s.goto p pc with handles := handles } :=
  ⟨h.lock,h.reclaim,pc,procs_self s p pc,hpc⟩

theorem Wedged.call {p : ℕ} {s : LockState} (h : Wedged p s) {draw : Draw} (hs : s.call p draw=some t) :
    Wedged p t := by
  obtain ⟨pc,hp,he⟩ := call_effect hs
  obtain ⟨pc',hp',hpc⟩ := h.pc
  cases hp.symm.trans hp'
  cases he with
  | jump _ next handles hj =>
    refine h.goto ?_ handles
    have hsom : s.file .lock≠none := by
      intro hnone
      have := h.lock
      rw [hnone] at this
      cases this
    cases hj with
    | «exists» site => cases site <;> trivial
    | absent round hnone => exact absurd hnone hsom
    | vanished round info hnone => exact absurd hnone hsom
    | present round | unparsed round | anonymous round | parsed round =>
      cases round <;> trivial
    | running round | dead round | young round | old round =>
      cases round <;> trivial
    | enter => trivial
    | _ => exact hpc.elim
  | create site draw free _ =>
    have hfre : s.file .lock=none ∨ s.file .reclaim=none := by
      cases site <;> first | exact .inl free | exact .inr free
    rcases hfre with hnone | hnone
    · have := h.lock
      rw [hnone] at this
      cases this
    · have := h.reclaim
      rw [hnone] at this
      cases this
  | tear => exact hpc.elim
  | write => exact hpc.elim
  | unlink => exact hpc.elim

theorem Wedged.solo {a : Answers} {p n : ℕ} {s : LockState} (h : Wedged p s) (hs : solo a p n s=some t) :
    Wedged p t := by
  induction n generalizing s with
  | zero =>
    cases hs
    exact h
  | succ n ih =>
    obtain ⟨u,hu,hres⟩ := bind_eq_some_iff.mp hs
    refine ih ?_ hres
    unfold soloStep at hu
    split at hu
    · cases hu
    · cases hu
    · obtain ⟨v,hv,rfl⟩ := map_eq_some_iff.mp hu
      have hw:=h.call hv
      exact ⟨hw.lock,hw.reclaim,hw.pc⟩

theorem Wedged.not_obtains {a : Answers} {p : ℕ} {s : LockState} (h : Wedged p s) :
    ¬ Obtains a p s := by
  rintro ⟨n,t,owner,hs,hp⟩
  obtain ⟨pc,hp',hpc⟩ := (h.solo hs).pc
  cases hp.symm.trans hp'
  exact hpc

def LockState.newcomer (s : LockState) (p ms : ℕ) : LockState :=
  LockState.goto { s with now := s.now+ms } p (.create .first)

/-- In every reachable state in which all processes are dead, more than 30 s
later a new process obtains the lock if and only if the lock and the reclaimer
have not both been left behind. -/
theorem obtains_iff_not_both {s : LockState} (h : lockSystem.Reachable s)
    (hdead : ∀ q, s.processAlive q=false) {p ms : ℕ} (hnew : s.procs p=.unborn)
    (hms : 30000 < ms) (a : Answers) :
    Obtains a p (s.newcomer p ms) ↔ ¬ ((s.file .lock).isSome ∧ (s.file .reclaim).isSome) := by
  have hr:=reachable_records h
  constructor
  · rintro hobt ⟨hloc,hrec⟩
    have hw : Wedged p (s.newcomer p ms) :=
      ⟨hloc,hrec,.create .first,procs_self _ p _,trivial⟩
    exact hw.not_obtains hobt
  · intro hnot
    have hat : At p (.create .first) s.file (s.now+ms) (s.newcomer p ms) := by
      refine ⟨procs_self _ p _,?_,rfl,Nat.le_refl _⟩
      intro q hq
      unfold processAlive LockState.newcomer
      rw [procs_other _ _ hq]
      exact hdead q
    refine hat.obtains_lock ?_
    intro g hg
    refine ⟨?_,?_,?_⟩
    · cases hrec : s.file .reclaim with
      | none => rfl
      | some f => exact absurd ⟨by rw [hg]; rfl,by rw [hrec]; rfl⟩ hnot
    · have htim:=hr.times .lock g hg
      have hgra : gracePeriod=30000 := rfl
      omega
    · rintro owner nonce ht rfl
      obtain ⟨ho,_⟩ := hr.text .lock g _ _ hg ht
      obtain ⟨k,hk⟩ := hr.creator .lock g hg
      cases ho
      exact hr.born k _ hk hnew

theorem effect_procs {s : LockState} {p q : ℕ} (h : Effect s p pc t) (hq : q≠p) : t.procs q=s.procs q := by
  cases h with
  | jump _ pc' => exact procs_other s pc' hq
  | create site draw => exact procs_other _ _ hq
  | tear site owner =>
    exact (procs_other _ _ hq).trans (by rw [(writeTo_rest s site.path owner .torn).1])
  | write site owner =>
    exact (procs_other _ _ hq).trans (by rw [(writeTo_rest s site.path owner _).1])
  | unlink removal => exact procs_other _ _ hq

theorem spawned_of_born {q : ℕ} {s₀ s : LockState} {actions : List LockAction}
    (h₀ : s₀.procs q=.unborn) (hr : lockSystem.Run s₀ actions s) (hq : s.procs q≠.unborn) :
    .spawn q ∈ actions := by
  induction hr with
  | refl => exact absurd h₀ hq
  | @tail t u as a hrun hste ih =>
    by_cases ht : t.procs q=.unborn
    · refine mem_append_right _ ?_
      change lockStep t a=some u at hste
      cases a with
      | tick ms =>
        simp only [lockStep] at hste
        split at hste <;> cases hste
        exact absurd ht hq
      | spawn p =>
        simp only [lockStep] at hste
        split at hste <;> cases hste
        by_cases he : q=p
        · rw [he]
          exact mem_singleton_self _
        · exact absurd ((procs_other t .idle he).trans ht) hq
      | crash p =>
        simp only [lockStep] at hste
        split at hste
        next ha =>
          cases hste
          have he : q≠p := by
            rintro rfl
            unfold processAlive at ha
            rw [ht] at ha
            cases ha
          exact absurd ((Function.update_of_ne he ..).trans ht) hq
        · cases hste
      | call p draw =>
        obtain ⟨pc,hp,he⟩ := call_effect hste
        have hne : q≠p := by
          rintro rfl
          cases ht.symm.trans hp
        exact absurd ((effect_procs he hne).trans ht) hq
    · exact mem_append_left _ (ih ht)

def numbered : Answers where
  draw s := ⟨⟨0,((s.file .lock).map fun f => f.id.ino).getD 0 +
      ((s.file .reclaim).map fun f => f.id.ino).getD 0+(s.handles.map fun h => h.2.ino).sum+1⟩,
    (s.drawn.map Prod.fst).sum+1,false⟩
  delay _ := 1
  unused := by
    have hsum : ∀ (l : List ℕ) n, n ∈ l → n≤l.sum := by
      intro l
      induction l with
      | nil => exact fun _ h => by cases h
      | cons x l ih =>
        intro n hn
        rw [sum_cons]
        rcases mem_cons.mp hn with rfl | hn
        · omega
        · have := ih n hn
          omega
    intro s
    refine ⟨?_,?_⟩
    · unfold unusedId
      simp only [Bool.and_eq_true]
      refine ⟨⟨?_,?_⟩,?_⟩
      · cases hf : s.file .lock with
        | none => rfl
        | some f =>
          simp only [map_some,getD_some,all_some,bne_iff_ne]
          intro he
          have := congrArg FileId.ino he
          simp only at this
          omega
      · cases hf : s.file .reclaim with
        | none => rfl
        | some f =>
          simp only [map_some,getD_some,all_some,bne_iff_ne]
          intro he
          have := congrArg FileId.ino he
          simp only at this
          omega
      · refine all_eq_true.mpr ?_
        intro h hm
        rw [bne_iff_ne]
        intro he
        have hle:=hsum _ _ (mem_map_of_mem (f := fun h => h.2.ino) hm)
        have := congrArg FileId.ino he
        simp only at this
        omega
    · refine all_eq_true.mpr ?_
      intro d hd
      rw [bne_iff_ne]
      intro he
      have hle:=hsum _ _ (mem_map_of_mem (f := Prod.fst) hd)
      simp only at he
      omega

def deadHolderRun : List LockAction :=
  .spawn 1::calls 1 ⟨0,1⟩ 1 4++[.crash 1]

def deadReclaimerRun : List LockAction :=
  deadHolderRun++.spawn 2::calls 2 ⟨0,2⟩ 2 6++[.crash 2]

theorem obtains_iff_not_both_run : ∃ s : LockState, (s.file .lock).isSome ∧
    Obtains numbered 3 (s.newcomer 3 30001) := by
  have hexe : (lockSystem.exec (.start 0) deadHolderRun).map
      (fun s => (s.procs 1,s.procs 3,(s.file .lock).isSome,(s.file .reclaim).isSome)) =
      some (.dead,.unborn,true,false) := by
    decide
  obtain ⟨s,hs,hsee⟩ := map_eq_some_iff.mp hexe
  simp only [Prod.mk.injEq] at hsee
  obtain ⟨hp,hnew,hloc,hrec⟩ := hsee
  have hr:=TransitionSystem.run_of_exec hs
  have hdea : ∀ q, s.processAlive q=false := by
    intro q
    unfold processAlive
    by_cases hq : s.procs q=.unborn
    · rw [hq]
      rfl
    · have hm:=spawned_of_born rfl hr hq
      have : q=1 := by simpa [deadHolderRun,calls] using hm
      rw [this,hp]
      rfl
  refine ⟨s,hloc,(obtains_iff_not_both ⟨_,_,⟨0,rfl⟩,hr⟩ hdea hnew (by decide) numbered).mpr ?_⟩
  rw [hrec]
  nofun

theorem wedged_forever : ∃ s : LockState, lockSystem.Reachable s ∧
    (∀ q, s.processAlive q=false) ∧ s.procs 3 = .unborn ∧
    ∀ ms a, ¬ Obtains a 3 (s.newcomer 3 ms) := by
  have hexe : (lockSystem.exec (.start 0) deadReclaimerRun).map
      (fun s => (s.procs 1,s.procs 2,s.procs 3,(s.file .lock).isSome,
        (s.file .reclaim).isSome))=some (.dead,.dead,.unborn,true,true) := by
    decide
  obtain ⟨s,hs,hsee⟩ := map_eq_some_iff.mp hexe
  simp only [Prod.mk.injEq] at hsee
  obtain ⟨hp,hp',hnew,hloc,hrec⟩ := hsee
  have hr:=TransitionSystem.run_of_exec hs
  refine ⟨s,⟨_,_,⟨0,rfl⟩,hr⟩,?_,hnew,?_⟩
  · intro q
    unfold processAlive
    by_cases hq : s.procs q=.unborn
    · rw [hq]
      rfl
    · have hm:=spawned_of_born rfl hr hq
      have : q=1 ∨ q=2 := by simpa [deadReclaimerRun,deadHolderRun,calls] using hm
      rcases this with rfl | rfl
      · rw [hp]
        rfl
      · rw [hp']
        rfl
  · intro ms a
    have hw : Wedged 3 (s.newcomer 3 ms) :=
      ⟨hloc,hrec,.create .first,procs_self _ 3 _,trivial⟩
    exact hw.not_obtains

end Qubicl.Cli
