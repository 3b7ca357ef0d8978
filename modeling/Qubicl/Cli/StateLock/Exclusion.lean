import Qubicl.Cli.StateLock.Records

/-!
# Mutual exclusion

A process owns the file at a path from the exclusive create to the unlink of
its release. The reclaimer file is removed by its owner only. The lock file of
a live process may be removed by a reclaimer whose snapshot has no nonce: then
`removeStateLockIfMatches` compares the identity alone, and an identity that
was seen on an older file can belong to a new one. `checked` excludes that one
step; in the runs without it at most one live process holds the lock.
-/

namespace Qubicl.Cli
open Foundation LockState

def Site.held : Site → Option LockOwner
  | .reclaimed owner => some owner
  | .first | .retry | .reclaimer => none

def Round.held : Round → Option LockOwner
  | .second owner => some owner
  | .first => none

def Removal.owner : LockPath → Removal → Option LockOwner
  | .lock, .release owner => some owner
  | .lock, .reclaimer _ acquired => acquired
  | .lock, .stale _ _ => none
  | .reclaim, .release _ => none
  | .reclaim, .reclaimer held _ => some held
  | .reclaim, .stale held _ => some held

/- The owner of the file that the process has created at a path and not yet
unlinked. -/
def Pc.owner (path : LockPath) : Pc → Option LockOwner
  | .idle => none
  | .create site => match path with
    | .lock => none
    | .reclaim => site.held
  | .stat site owner | .write site owner _ => if site.path=path then some owner else site.held
  | .lstat round | .read round _ | .kill round _ _ _ | .clock round _ _ => match path with
    | .lock => none
    | .reclaim => round.held
  | .close removal | .compare removal | .compareNonce removal _ | .unlink removal =>
    removal.owner path
  | .holding owner => match path with
    | .lock => some owner
    | .reclaim => none

variable {s : LockState} {pc pc' : Pc}

variable {path : LockPath} {site : Site} {f : LockFile} {t : LockState}

theorem Jump.owner (h : Jump s pc pc') {owner : LockOwner} (ho : pc'.owner path=some owner) :
    pc.owner path=some owner := by
  cases h with
  | «exists» site => cases site <;> cases path <;> exact ho
  | absent round | vanished round | running round | young round =>
    cases round <;> cases path <;> exact ho
  | dead round | old round => cases round <;> cases path <;> exact ho
  | differs removal | nonceDiffers removal =>
    rcases removal with _ | ⟨_,_ | _⟩ | _ <;> cases path <;> first | exact ho | cases ho
  | enter => cases path <;> cases ho
  | leave => cases path <;> exact ho
  | _ => exact ho

theorem created_owner {owner o : LockOwner} (h : (LockState.created site owner).owner path=some o) (torn : Bool) :
    (Pc.write site owner torn).owner path=some o := by
  cases site <;> cases path <;> exact h

theorem removed_owner {removal : Removal} {o : LockOwner} (h : (removed removal true).owner path=some o) :
    (Pc.unlink removal).owner path=some o ∧ path≠removal.path := by
  rcases removal with _ | ⟨_,_ | _⟩ | _ <;> cases path <;> first
    | (cases h; done)
    | exact ⟨h,fun he => by cases he⟩

/-- `staleStateLock` evaluated at one moment: the owner of the record is dead, or
there is no record and the grace period is over. -/
def staleNow (s : LockState) (f : LockFile) : Bool :=
  match f.text with
  | .record (some owner) _ => !s.processAlive owner
  | _ => decide (gracePeriod ≤ s.now - f.mtime)

/- The step that goes wrong is not taken: when a snapshot without a nonce
matches the file at cli.lock, that file is still stale. -/
def checked (s : LockState) : LockAction → Bool
  | .call pid _ =>
    match s.procs pid, s.file .lock with
    | .alive (.compare (.stale _ current)), some f =>
      current.nonce.isSome || f.id != current.id || staleNow s f
    | _, _ => true
  | _ => true

variable {pid : ℕ}

theorem stale_of_checked {draw : Draw} {held : LockOwner} {current : StateLockSnapshot}
    (h : checked s (.call pid draw)=true) (hp : s.procs pid=.alive (.compare (.stale held current)))
    (hn : current.nonce=none) (hf : s.file .lock=some f) (hid : f.id=current.id) : staleNow s f=true := by
  simpa [checked,hp,hf,hn,hid] using h

def Sound (s : LockState) : Pc → Prop
  | .kill _ _ owner nonce => ∃ k, nonce=some k ∧ (k,owner) ∈ s.drawn
  | .clock _ _ nonce => nonce=none
  | .close (.stale _ _) => False
  | .compare (.stale _ current) => ∀ k, current.nonce=some k →
      ∃ q, (k,q) ∈ s.drawn ∧ s.procs q=.dead
  | .compareNonce (.stale _ _) nonce => ∃ q, (nonce,q) ∈ s.drawn ∧ s.procs q=.dead
  | .unlink (.stale _ _) => ∃ f, s.file .lock=some f ∧ s.procs f.creator=.dead
  | _ => True

structure Exclusive (s : LockState) : Prop where
  records : Records s
  owned : ∀ path pid pc owner, s.procs pid=.alive pc → pc.owner path=some owner →
    ∃ f, s.file path=some f ∧ f.creator=pid ∧ f.serial=owner.serial
  sound : ∀ pid pc, s.procs pid=.alive pc → Sound s pc
  timely : ∀ f, s.file .lock=some f → (∀ owner nonce, f.text≠.record owner nonce) →
    s.processAlive f.creator=true → s.now - f.created<gracePeriod

theorem Exclusive.owner_unique (h : Exclusive s) (path : LockPath) {p q : ℕ} {qc : Pc} {o o' : LockOwner}
    (hp : s.procs p=.alive pc) (ho : pc.owner path=some o) (hq : s.procs q=.alive qc) (ho' : qc.owner path=some o') :
    p=q := by
  obtain ⟨f,hf,hc,_⟩ := h.owned path p pc o hp ho
  obtain ⟨g,hg,hc',_⟩ := h.owned path q qc o' hq ho'
  rw [hf] at hg
  cases hg
  exact hc.symm.trans hc'

theorem not_alive_dead (h : Records s) {k q : ℕ} (hk : (k,q) ∈ s.drawn)
    (hq : s.processAlive q=false) : s.procs q=.dead := by
  have hbor:=h.born k q hk
  unfold processAlive at hq
  cases hp : s.procs q with
  | unborn => exact absurd hp hbor
  | alive pc =>
    rw [hp] at hq
    cases hq
  | dead => rfl

theorem Exclusive.stale_dead (h : Exclusive s) (hf : s.file .lock=some f) (hs : staleNow s f=true) :
    s.procs f.creator=.dead := by
  obtain ⟨k,hk⟩ := h.records.creator .lock f hf
  refine not_alive_dead h.records hk ?_
  unfold staleNow at hs
  split at hs
  next owner nonce ht =>
    obtain ⟨ho,_⟩ := h.records.text .lock f _ _ hf ht
    cases ho
    simpa using hs
  next hno =>
    have hage : gracePeriod ≤ s.now - f.mtime := by simpa using hs
    have htim:=h.records.times .lock f hf
    have htex : ∀ owner nonce, f.text≠.record owner nonce := by
      intro owner nonce ht
      obtain ⟨ho,_⟩ := h.records.text .lock f _ _ hf ht
      exact hno f.creator nonce (ho ▸ ht)
    by_contra ha
    have := h.timely f hf htex (by simpa using ha)
    omega

/-- What another process has made sure of stays true as long as dead processes
stay dead and the lock of a dead process stays in place. -/
theorem Sound.mono (h : Sound s pc) (hd : ∀ x ∈ s.drawn, x ∈ t.drawn) (hp : ∀ q, s.procs q=.dead → t.procs q=.dead)
    (hf : ∀ held current f, pc=.unlink (.stale held current) → s.file .lock=some f →
      s.procs f.creator=.dead → t.file .lock=some f) : Sound t pc := by
  cases pc with
  | kill round info owner nonce =>
    obtain ⟨k,hk,hm⟩ := h
    exact ⟨k,hk,hd _ hm⟩
  | clock => exact h
  | close removal =>
    cases removal with
    | stale held current => exact h.elim
    | _ => trivial
  | compare removal =>
    cases removal with
    | stale held current =>
      intro k hk
      obtain ⟨q,hq,hdea⟩ := h k hk
      exact ⟨q,hd _ hq,hp q hdea⟩
    | _ => trivial
  | compareNonce removal nonce =>
    cases removal with
    | stale held current =>
      obtain ⟨q,hq,hdea⟩ := h
      exact ⟨q,hd _ hq,hp q hdea⟩
    | _ => trivial
  | unlink removal =>
    cases removal with
    | stale held current =>
      obtain ⟨f,hfil,hdea⟩ := h
      exact ⟨f,hf held current f rfl hfil hdea,hp _ hdea⟩
    | _ => trivial
  | _ => trivial

theorem Exclusive.jump_sound (h : Exclusive s)
    (hp : s.procs pid=.alive pc) (hj : Jump s pc pc')
    (hc : ∀ held current f, pc=.compare (.stale held current) → current.nonce=none →
      s.file .lock=some f → f.id=current.id → staleNow s f=true) : Sound s pc' := by
  have hs:=h.sound pid pc hp
  cases hj with
  | «exists» site => cases site <;> trivial
  | absent round | vanished round | running round | young round => cases round <;> trivial
  | unparsed => exact rfl
  | anonymous _ _ f nonce hf ht =>
    obtain ⟨ho,_⟩ := h.records.text .lock f _ _ hf ht
    cases ho
  | parsed _ _ f owner nonce hf ht =>
    obtain ⟨ho,k,hk,hm⟩ := h.records.text .lock f _ _ hf ht
    cases ho
    exact ⟨k,hk,hm⟩
  | dead round info owner nonce ha =>
    cases round with
    | first => trivial
    | second held =>
      obtain ⟨k,hk,hm⟩ := hs
      intro k' hk'
      cases hk.symm.trans hk'
      exact ⟨owner,hm,not_alive_dead h.records hm ha⟩
  | old round info nonce _ =>
    cases round with
    | first => trivial
    | second held =>
      intro k hk
      cases hs.symm.trans hk
  | differs removal | nonceDiffers removal => rcases removal with _ | ⟨_,_ | _⟩ | _ <;> trivial
  | «matches» removal f hf hid hn =>
    cases removal with
    | stale held current => exact ⟨f,hf,h.stale_dead hf (hc held current f rfl hn hf hid)⟩
    | _ => trivial
  | nonce removal f nonce hf hid hn =>
    cases removal with
    | stale held current => exact hs nonce hn
    | _ => trivial
  | nonceMatches removal nonce f owner hf ht =>
    cases removal with
    | stale held current =>
      obtain ⟨q,hq,hdea⟩ := hs
      obtain ⟨_,k,hk,hm⟩ := h.records.text .lock f _ _ hf ht
      cases hk
      rw [h.records.unique _ _ _ hq hm] at hdea
      exact ⟨f,hf,hdea⟩
    | _ => trivial
  | close removal =>
    cases removal with
    | stale held current => exact hs.elim
    | _ => trivial
  | _ => trivial

theorem goto_dead {q : ℕ} (hp : s.procs pid=.alive pc) (hq : s.procs q=.dead) : (s.goto pid pc').procs q=.dead := by
  have hne : q≠pid := by
    rintro rfl
    cases hp.symm.trans hq
  rw [procs_other s pc' hne]
  exact hq

theorem goto_processAlive {q : ℕ} (hp : s.procs pid=.alive pc) (hq : (s.goto pid pc').processAlive q=true) :
    s.processAlive q=true := by
  by_cases he : q=pid
  · subst he
    unfold processAlive
    rw [hp]
    rfl
  · unfold processAlive at hq ⊢
    rw [procs_other s pc' he] at hq
    exact hq

theorem creator_alive (hp : s.procs pid=.alive pc) (hc : f.creator=pid) : s.procs f.creator≠.dead := by
  rw [hc,hp]
  nofun

theorem Exclusive.move (h : Exclusive s) (hr : Records t) (hf : t.file=s.file) (hd : t.drawn=s.drawn)
    (hdea : ∀ q, s.procs q=.dead → t.procs q=.dead)
    (hp : ∀ q qc, t.procs q=.alive qc → s.procs q=.alive qc ∨ (Sound t qc ∧
      ∀ path o, qc.owner path=some o →
        ∃ f, s.file path=some f ∧ f.creator=q ∧ f.serial=o.serial))
    (ht : ∀ f, s.file .lock=some f → (∀ owner nonce, f.text≠.record owner nonce) →
      t.processAlive f.creator=true → t.now - f.created<gracePeriod) : Exclusive t := by
  refine ⟨hr,?_,?_,?_⟩
  · intro path q qc o hq ho
    rw [hf]
    rcases hp q qc hq with hq | ⟨_,hown⟩
    · exact h.owned path q qc o hq ho
    · exact hown path o ho
  · intro q qc hq
    rcases hp q qc hq with hq | ⟨hs,_⟩
    · refine (h.sound q qc hq).mono (fun x hx => hd ▸ hx) hdea ?_
      intro _ _ f _ hfil _
      rw [hf]
      exact hfil
    · exact hs
  · intro f hfil
    rw [hf] at hfil
    exact ht f hfil

theorem Exclusive.jump (h : Exclusive s)
    (hp : s.procs pid=.alive pc) (hj : Jump s pc pc') (handles : List (ℕ × FileId))
    (hr : Records { s.goto pid pc' with handles := handles })
    (hc : ∀ held current f, pc=.compare (.stale held current) → current.nonce=none →
      s.file .lock=some f → f.id=current.id → staleNow s f=true) :
    Exclusive { s.goto pid pc' with handles := handles } := by
  refine h.move hr rfl rfl (fun q hq => goto_dead hp hq) ?_ ?_
  · intro q qc hq
    by_cases he : q=pid
    · subst he
      cases (procs_self s q pc').symm.trans hq
      refine .inr ⟨?_,?_⟩
      · refine (h.jump_sound hp hj hc).mono (fun _ hx => hx) (fun q hq => goto_dead hp hq) ?_
        exact fun _ _ _ _ hfil _ => hfil
      · exact fun path o ho => h.owned path q pc o hp (hj.owner ho)
    · exact .inl ((procs_other s pc' he).symm.trans hq)
  · intro f hfil ht ha
    exact h.timely f hfil ht (goto_processAlive hp ha)

theorem Exclusive.create (h : Exclusive s) {draw : Draw} (hp : s.procs pid=.alive (.create site))
    (free : s.file site.path=none) (hr : Records t)
    (hfil : t.file=((s.setFile site.path (some (freshFile s pid draw.id)))).file)
    (hpro : t.procs=(s.goto pid (.stat site ⟨draw.nonce,draw.id,s.nextSerial⟩)).procs)
    (hd : t.drawn=(draw.nonce,pid)::s.drawn) (hnow : t.now=s.now) : Exclusive t := by
  have hdea : ∀ q, s.procs q=.dead → t.procs q=.dead := by
    intro q hq
    rw [hpro]
    exact goto_dead hp hq
  have hsel : t.file site.path=some (freshFile s pid draw.id) := by
    rw [hfil]
    exact file_self ..
  have hoth : ∀ p, p≠site.path → t.file p=s.file p := by
    intro p hne
    rw [hfil]
    exact file_other _ _ hne
  -- a file that was there is at another path
  have hkep : ∀ p f, s.file p=some f → t.file p=some f := by
    intro p f hf
    have hne : p≠site.path := by
      rintro rfl
      cases free.symm.trans hf
    exact (hoth p hne).trans hf
  refine ⟨hr,?_,?_,?_⟩
  · intro path q qc o hq ho
    by_cases he : q=pid
    · subst he
      rw [hpro] at hq
      cases (procs_self s q _).symm.trans hq
      by_cases hpat : site.path=path
      · subst hpat
        simp only [Pc.owner,if_pos] at ho
        cases ho
        exact ⟨_,hsel,rfl,rfl⟩
      · simp only [Pc.owner,if_neg hpat] at ho
        have hcre : (Pc.create site).owner path=some o := by
          cases site with
          | reclaimed held =>
            cases path with
            | lock => exact absurd rfl hpat
            | reclaim => exact ho
          | _ => cases ho
        obtain ⟨f,hf,hc,hs⟩ := h.owned path q _ o hp hcre
        exact ⟨f,hkep path f hf,hc,hs⟩
    · rw [hpro,procs_other s _ he] at hq
      obtain ⟨f,hf,hc,hs⟩ := h.owned path q qc o hq ho
      exact ⟨f,hkep path f hf,hc,hs⟩
  · intro q qc hq
    by_cases he : q=pid
    · subst he
      rw [hpro] at hq
      cases (procs_self s q _).symm.trans hq
      trivial
    · rw [hpro,procs_other s _ he] at hq
      refine (h.sound q qc hq).mono ?_ hdea (fun _ _ f _ hf _ => hkep .lock f hf)
      intro x hx
      rw [hd]
      exact List.mem_cons_of_mem _ hx
  · intro f hf ht ha
    rw [hnow]
    have hali : s.processAlive f.creator=true := by
      have hgot : (s.goto pid (.stat site ⟨draw.nonce,draw.id,s.nextSerial⟩)).processAlive f.creator =
          true := by
        unfold processAlive at ha ⊢
        rw [← hpro]
        exact ha
      exact goto_processAlive hp hgot
    by_cases hpat : LockPath.lock=site.path
    · rw [hpat,hsel] at hf
      cases hf
      show s.now - s.now<gracePeriod
      rw [Nat.sub_self]
      decide
    · rw [hoth _ hpat] at hf
      exact h.timely f hf ht hali

theorem writeTo_kept (s : LockState) (path : LockPath) (owner : LockOwner) (text : LockText) {p : LockPath}
    (hf : s.file p=some f) :
    ∃ g, (s.writeTo path owner text).file p=some g ∧ g.creator=f.creator ∧
      g.serial=f.serial ∧ (f.serial≠owner.serial → g=f) := by
  unfold writeTo
  split
  next e he =>
    split
    next hs =>
      by_cases hp : p=path
      · subst hp
        rw [hf] at he
        cases he
        exact ⟨_,file_self ..,rfl,rfl,fun hne => absurd hs hne⟩
      · exact ⟨f,(file_other _ _ hp).trans hf,rfl,rfl,fun _ => rfl⟩
    · exact ⟨f,hf,rfl,rfl,fun _ => rfl⟩
  · exact ⟨f,hf,rfl,rfl,fun _ => rfl⟩

theorem Exclusive.write (h : Exclusive s) {owner : LockOwner} {torn : Bool} {text : LockText}
    (hp : s.procs pid=.alive (.write site owner torn)) (hr : Records ((s.writeTo site.path owner text).goto pid pc'))
    (ho : ∀ path o, pc'.owner path=some o → (Pc.write site owner torn).owner path=some o) (hs : ∀ t, Sound t pc') :
    Exclusive ((s.writeTo site.path owner text).goto pid pc') := by
  obtain ⟨hpro,hdra,_,hnow⟩ := writeTo_rest s site.path owner text
  obtain ⟨_,_,hfil⟩ := h.records.writer pid _ owner hp rfl
  have hp' : (s.writeTo site.path owner text).procs pid=.alive (.write site owner torn) := by
    rw [hpro]
    exact hp
  have hown : ∀ path q qc o, s.procs q=.alive qc → qc.owner path=some o →
      ∃ f, (s.writeTo site.path owner text).file path=some f ∧ f.creator=q ∧
        f.serial=o.serial := by
    intro path q qc o hq hqo
    obtain ⟨f,hf,hc,hser⟩ := h.owned path q qc o hq hqo
    obtain ⟨g,hg,hgc,hgs,_⟩ := writeTo_kept s site.path owner text hf
    exact ⟨g,hg,hgc.trans hc,hgs.trans hser⟩
  refine ⟨hr,?_,?_,?_⟩
  · intro path q qc o hq hqo
    by_cases he : q=pid
    · subst he
      cases (procs_self _ q pc').symm.trans hq
      exact hown path q _ o hp (ho path o hqo)
    · have hq':=(procs_other _ pc' he).symm.trans hq
      rw [hpro] at hq'
      exact hown path q qc o hq' hqo
  · intro q qc hq
    by_cases he : q=pid
    · subst he
      cases (procs_self _ q pc').symm.trans hq
      exact hs _
    · have hq':=(procs_other _ pc' he).symm.trans hq
      rw [hpro] at hq'
      refine (h.sound q qc hq').mono ?_ ?_ ?_
      · intro x hx
        show x ∈ (s.writeTo site.path owner text).drawn
        rw [hdra]
        exact hx
      · intro r hdea
        refine goto_dead hp' ?_
        rw [hpro]
        exact hdea
      · -- the lock of a dead process is not the file that is being written
        intro _ _ f _ hf hdea
        obtain ⟨g,hg,_,_,hsam⟩ := writeTo_kept s site.path owner text hf
        have hne : f.serial≠owner.serial :=
          fun hser => creator_alive hp (hfil .lock f hf hser).1 hdea
        rw [hsam hne] at hg
        exact hg
  · intro f hf ht ha
    show (s.writeTo site.path owner text).now - f.created<gracePeriod
    rw [hnow]
    have hali : s.processAlive f.creator=true := by
      have := goto_processAlive hp' ha
      unfold processAlive at this ⊢
      rw [hpro] at this
      exact this
    rcases writeTo_file s site.path .lock owner text hf with hf | ⟨g,hpat,hg,hser,rfl⟩
    · exact h.timely f hf ht hali
    · exact h.timely g (hpat ▸ hg) (hfil _ g hg hser).2 hali

theorem Exclusive.unlink (h : Exclusive s) {removal : Removal}
    (hp : s.procs pid=.alive (.unlink removal))
    (hr : Records ((s.setFile removal.path none).goto pid (removed removal true))) :
    Exclusive ((s.setFile removal.path none).goto pid (removed removal true)) := by
  have hsou:=h.sound pid _ hp
  -- the file that is removed is the process's own or that of a dead process
  have hfre : ∀ q qc o, q≠pid → s.procs q=.alive qc → qc.owner removal.path≠some o := by
    intro q qc o hne hq ho
    cases removal with
    | stale held current =>
      obtain ⟨f,hf,hdea⟩ := hsou
      obtain ⟨g,hg,hc,_⟩ := h.owned .lock q qc o hq ho
      rw [hf] at hg
      cases hg
      exact creator_alive hq hc hdea
    | reclaimer held acquired => exact hne (h.owner_unique _ hq ho hp rfl)
    | release owner => exact hne (h.owner_unique _ hq ho hp rfl)
  -- and no other reclaimer is about to remove it
  have hrec : ∀ q qc held current f, q≠pid → s.procs q=.alive qc →
      qc=.unlink (.stale held current) → s.file .lock=some f → s.procs f.creator=.dead →
      removal.path≠.lock := by
    rintro q qc held current f hne hq rfl hf hdea hpat
    cases removal with
    | stale held' current' => exact hne (h.owner_unique .reclaim hq rfl hp rfl)
    | reclaimer held' acquired => cases hpat
    | release owner =>
      obtain ⟨g,hg,hc,_⟩ := h.owned .lock pid _ owner hp rfl
      rw [hf] at hg
      cases hg
      exact creator_alive hp hc hdea
  refine ⟨hr,?_,?_,?_⟩
  · intro path q qc o hq ho
    have hkep : path≠removal.path → ∀ f, s.file path=some f →
        (s.setFile removal.path none).file path=some f :=
      fun hne f hf => (file_other _ _ hne).trans hf
    by_cases he : q=pid
    · subst he
      cases (procs_self _ q (removed removal true)).symm.trans hq
      obtain ⟨ho',hne⟩ := removed_owner ho
      obtain ⟨f,hf,hres⟩ := h.owned path q _ o hp ho'
      exact ⟨f,hkep hne f hf,hres⟩
    · have hq' : s.procs q=.alive qc := (procs_other _ (removed removal true) he).symm.trans hq
      obtain ⟨f,hf,hres⟩ := h.owned path q qc o hq' ho
      refine ⟨f,hkep ?_ f hf,hres⟩
      rintro rfl
      exact hfre q qc o he hq' ho
  · intro q qc hq
    by_cases he : q=pid
    · subst he
      cases (procs_self _ q (removed removal true)).symm.trans hq
      rcases removal with _ | ⟨_,_ | _⟩ | _ <;> trivial
    · have hq' : s.procs q=.alive qc := (procs_other _ (removed removal true) he).symm.trans hq
      refine (h.sound q qc hq').mono (fun _ hx => hx) (fun r hdea => ?_) ?_
      · exact goto_dead (s := s.setFile removal.path none) hp hdea
      · intro held current f hqc hf hdea
        exact (file_other _ _ (hrec q qc held current f he hq' hqc hf hdea).symm).trans hf
  · intro f hf ht ha
    have hf' : s.file .lock=some f := by
      by_cases hpat : LockPath.lock=removal.path
      · have hnon : (s.setFile removal.path none).file .lock=none := by
          rw [hpat]
          exact file_self ..
        cases hnon.symm.trans hf
      · exact (file_other s none hpat).symm.trans hf
    exact h.timely f hf' ht (goto_processAlive (s := s.setFile removal.path none) hp ha)

theorem exclusive_effect (h : Exclusive s) (hp : s.procs pid=.alive pc) (he : Effect s pid pc t)
    (hc : ∀ held current f, pc=.compare (.stale held current) → current.nonce=none →
      s.file .lock=some f → f.id=current.id → staleNow s f=true) : Exclusive t := by
  have hr:=records_effect h.records hp he
  cases he with
  | jump _ pc' handles hj => exact h.jump hp hj handles hr hc
  | create site draw free _ => exact h.create hp free hr rfl rfl rfl rfl
  | tear site owner => exact h.write hp hr (fun _ _ => id) (fun _ => trivial)
  | write site owner torn =>
    refine h.write hp hr (fun _ _ ho => created_owner ho torn) ?_
    intro t
    cases site <;> trivial
  | unlink removal => exact h.unlink hp hr

theorem exclusive_step {a : LockAction} (h : Exclusive s) (hc : checked s a=true) (hs : lockSystem.step s a=some t) :
    Exclusive t := by
  have hr:=records_step h.records hs
  change lockStep s a=some t at hs
  cases a with
  | tick ms =>
    simp only [lockStep] at hs
    split at hs
    next hpun =>
      cases hs
      refine h.move hr rfl rfl (fun _ => id) (fun _ _ hq => .inl hq) ?_
      intro f hf ht ha
      unfold punctual at hpun
      rw [hf] at hpun
      change s.processAlive f.creator=true at ha
      cases htex : f.text with
      | record owner nonce => exact absurd htex (ht owner nonce)
      | empty => simpa [htex,ha] using hpun
      | torn => simpa [htex,ha] using hpun
    · cases hs
  | spawn pid =>
    simp only [lockStep] at hs
    split at hs
    next hspa =>
      have hunb:=hspa.2
      cases hs
      refine h.move hr rfl rfl ?_ ?_ ?_
      · intro q hq
        have hne : q≠pid := by
          rintro rfl
          cases hunb.symm.trans hq
        exact (procs_other s .idle hne).trans hq
      · intro q qc hq
        by_cases he : q=pid
        · subst he
          cases (procs_self s q .idle).symm.trans hq
          refine .inr ⟨trivial,?_⟩
          intro path o ho
          cases path <;> cases ho
        · exact .inl ((procs_other s .idle he).symm.trans hq)
      · intro f hf ht ha
        obtain ⟨k,hk⟩ := h.records.creator .lock f hf
        have hne : f.creator≠pid := by
          intro he
          exact h.records.born k f.creator hk (he ▸ hunb)
        refine h.timely f hf ht ?_
        unfold processAlive at ha ⊢
        rw [procs_other s .idle hne] at ha
        exact ha
    · cases hs
  | crash pid =>
    simp only [lockStep] at hs
    split at hs
    · cases hs
      have hoth : ∀ q, q≠pid → Function.update s.procs pid Proc.dead q=s.procs q :=
        fun q hq => Function.update_of_ne hq ..
      have hsel : Function.update s.procs pid Proc.dead pid=.dead := Function.update_self ..
      refine h.move hr rfl rfl ?_ ?_ ?_
      · intro q hq
        by_cases he : q=pid
        · subst he
          exact hsel
        · exact (hoth q he).trans hq
      · intro q qc hq
        by_cases he : q=pid
        · subst he
          cases hsel.symm.trans hq
        · exact .inl ((hoth q he).symm.trans hq)
      · intro f hf ht ha
        refine h.timely f hf ht ?_
        unfold processAlive at ha ⊢
        change (Function.update s.procs pid Proc.dead f.creator).isAlive=true at ha
        by_cases he : f.creator=pid
        · rw [he,hsel] at ha
          cases ha
        · rw [hoth _ he] at ha
          exact ha
    · cases hs
  | call pid draw =>
    obtain ⟨pc,hp,he⟩ := call_effect hs
    refine exclusive_effect h hp he ?_
    rintro held current f rfl hn hf hid
    exact stale_of_checked hc hp hn hf hid

theorem exclusive_start (now : ℕ) : Exclusive (.start now) := by
  refine ⟨records_start now,?_,?_,?_⟩
  · intro _ _ _ _ hp
    cases hp
  · intro _ _ hp
    cases hp
  · intro _ hf
    cases hf

/-- In every run in which a snapshot without a nonce only matches a lock that is
still stale, at most one live process is between the return of
`acquireStateLock` and its release. -/
theorem one_holder_of_checked {s₀ s : LockState} {actions : List LockAction}
    (h₀ : lockSystem.initial s₀) (hr : lockSystem.RunWhere (fun s a => checked s a=true) s₀ actions s) {p q : ℕ}
    {owner owner' : LockOwner} (hp : s.procs p=.alive (.holding owner))
    (hq : s.procs q=.alive (.holding owner')) : p=q := by
  obtain ⟨now,rfl⟩ := h₀
  have h : Exclusive s := hr.preserves (fun _ _ _ hs hc ht => exclusive_step hs hc ht)
    (exclusive_start now)
  exact h.owner_unique .lock hp rfl hq rfl

def reclaimedRun : List LockAction :=
  [.spawn 1]++calls 1 ⟨0,1⟩ 1 2++[.crash 1,.tick 30000,.spawn 2] ++
  calls 2 ⟨0,2⟩ 2 13++calls 2 ⟨0,3⟩ 3 7

theorem one_holder_of_checked_run : ∃ (s : LockState) (owner : LockOwner), s.procs 2 = .alive (.holding owner) ∧
    ∀ q owner', s.procs q=Proc.alive (.holding owner') → 2=q := by
  have hexe : (lockSystem.execWhere checked (.start 0) reclaimedRun).map (fun s => s.procs 2) =
      some (.alive (.holding ⟨3,⟨0,3⟩,2⟩)) := by
    decide
  obtain ⟨s,hs,hp⟩ := Option.map_eq_some_iff.mp hexe
  exact ⟨s,_,hp,fun q owner' hq => one_holder_of_checked ⟨0,rfl⟩
    (TransitionSystem.runWhere_of_exec hs) hp hq⟩

/- Process 1 dies with the lock. Process 3 finds it stale and pauses, process 2
reclaims it and holds it for 30 s. Then process 3 creates the reclaimer and
sees process 2's file, process 2 releases and process 4 creates its lock: the
file gets the identity of the one that is gone. Process 3 reads an empty file,
takes the age of the old one and removes the new one. -/
def stolenLockRun : List LockAction :=
  [.spawn 1]++calls 1 ⟨0,1⟩ 1 4++[.crash 1] ++
  [.spawn 3]++calls 3 ⟨0,9⟩ 9 5 ++
  [.spawn 2]++calls 2 ⟨0,2⟩ 2 14++calls 2 ⟨0,3⟩ 3 7++[.tick 30000] ++
  calls 3 ⟨0,4⟩ 4 4 ++
  calls 2 ⟨0,9⟩ 9 5 ++
  [.spawn 4]++calls 4 ⟨0,3⟩ 5 2 ++
  calls 3 ⟨0,9⟩ 9 4++calls 3 ⟨0,5⟩ 6 7 ++
  calls 4 ⟨0,9⟩ 9 2

theorem two_holders : ∃ s : LockState, lockSystem.Reachable s ∧
    s.procs 3 = .alive (.holding ⟨6,⟨0,5⟩,5⟩) ∧
    s.procs 4 = .alive (.holding ⟨5,⟨0,3⟩,4⟩) := by
  have hexe : (lockSystem.exec (.start 0) stolenLockRun).map
      (fun s => (s.procs 3,s.procs 4)) =
      some (.alive (.holding ⟨6,⟨0,5⟩,5⟩),.alive (.holding ⟨5,⟨0,3⟩,4⟩)) := by
    decide
  obtain ⟨s,hs,hp⟩ := Option.map_eq_some_iff.mp hexe
  exact ⟨s,⟨_,_,⟨0,rfl⟩,TransitionSystem.run_of_exec hs⟩,congrArg Prod.fst hp,
    congrArg Prod.snd hp⟩

end Qubicl.Cli
