import Qubicl.Cli.StateLock.Program

/-!
# What the lock files say

`Effect` says once what a call can do: most calls only move the process on (`Jump`), the others create, write or unlink one
file.
-/

namespace Qubicl.Cli
open Foundation LockState List

inductive Jump (s : LockState) : Pc → Pc → Prop
  | enter : Jump s .idle (.create .first)
  | exists (site : Site) (f : LockFile) (h : s.file site.path=some f) :
      Jump s (.create site) (existing site)
  | stat (site : Site) (owner : LockOwner) : Jump s (.stat site owner) (.write site owner false)
  | absent (round : Round) (h : s.file .lock=none) : Jump s (.lstat round) (missing round)
  | present (round : Round) (f : LockFile) (h : s.file .lock=some f) :
      Jump s (.lstat round) (.read round ⟨f.id,f.mtime⟩)
  | vanished (round : Round) (info : Info) (h : s.file .lock=none) :
      Jump s (.read round info) (missing round)
  | unparsed (round : Round) (info : Info) (f : LockFile) (h : s.file .lock=some f)
      (ht : f.text=.empty ∨ f.text=.torn) : Jump s (.read round info) (.clock round info none)
  | anonymous (round : Round) (info : Info) (f : LockFile) (nonce : Option ℕ)
      (h : s.file .lock=some f) (ht : f.text=.record none nonce) :
      Jump s (.read round info) (.clock round info nonce)
  | parsed (round : Round) (info : Info) (f : LockFile) (owner : ℕ) (nonce : Option ℕ)
      (h : s.file .lock=some f) (ht : f.text=.record (some owner) nonce) :
      Jump s (.read round info) (.kill round info owner nonce)
  | running (round : Round) (info : Info) (owner : ℕ) (nonce : Option ℕ)
      (h : s.processAlive owner=true) : Jump s (.kill round info owner nonce) (refused round)
  | dead (round : Round) (info : Info) (owner : ℕ) (nonce : Option ℕ)
      (h : s.processAlive owner=false) :
      Jump s (.kill round info owner nonce) (stale round ⟨info.id,nonce⟩)
  | young (round : Round) (info : Info) (nonce : Option ℕ)
      (h : s.now - info.mtime<gracePeriod) : Jump s (.clock round info nonce) (refused round)
  | old (round : Round) (info : Info) (nonce : Option ℕ)
      (h : gracePeriod ≤ s.now - info.mtime) :
      Jump s (.clock round info nonce) (stale round ⟨info.id,nonce⟩)
  | close (removal : Removal) : Jump s (.close removal) (.compare removal)
  | differs (removal : Removal)
      (h : ∀ f, s.file removal.path=some f → f.id≠removal.expected.id) :
      Jump s (.compare removal) (removed removal false)
  | matches (removal : Removal) (f : LockFile) (h : s.file removal.path=some f)
      (hid : f.id=removal.expected.id) (hn : removal.expected.nonce=none) :
      Jump s (.compare removal) (.unlink removal)
  | nonce (removal : Removal) (f : LockFile) (nonce : ℕ) (h : s.file removal.path=some f)
      (hid : f.id=removal.expected.id) (hn : removal.expected.nonce=some nonce) :
      Jump s (.compare removal) (.compareNonce removal nonce)
  | nonceDiffers (removal : Removal) (nonce : ℕ)
      (h : ∀ f owner, s.file removal.path=some f → f.text≠.record owner (some nonce)) :
      Jump s (.compareNonce removal nonce) (removed removal false)
  | nonceMatches (removal : Removal) (nonce : ℕ) (f : LockFile) (owner : Option ℕ)
      (h : s.file removal.path=some f) (ht : f.text=.record owner (some nonce)) :
      Jump s (.compareNonce removal nonce) (.unlink removal)
  | leave (owner : LockOwner) : Jump s (.holding owner) (.close (.release owner))

def freshFile (s : LockState) (pid : ℕ) (id : FileId) : LockFile :=
  ⟨id,s.now,.empty,pid,s.now,s.nextSerial⟩

inductive Effect (s : LockState) (pid : ℕ) : Pc → LockState → Prop
  | jump (pc pc' : Pc) (handles : List (ℕ × FileId)) (h : Jump s pc pc') :
      Effect s pid pc { s.goto pid pc' with handles := handles }
  | create (site : Site) (draw : Draw) (free : s.file site.path=none)
      (drawn : s.unusedNonce draw.nonce=true) :
      Effect s pid (.create site)
        { (s.setFile site.path (some (freshFile s pid draw.id))).goto pid
            (.stat site ⟨draw.nonce,draw.id,s.nextSerial⟩) with
          handles := (pid,draw.id)::s.handles
          drawn := (draw.nonce,pid)::s.drawn
          nextSerial := s.nextSerial+1 }
  | tear (site : Site) (owner : LockOwner) :
      Effect s pid (.write site owner false)
        ((s.writeTo site.path owner .torn).goto pid (.write site owner true))
  | write (site : Site) (owner : LockOwner) (torn : Bool) :
      Effect s pid (.write site owner torn)
        ((s.writeTo site.path owner (.record (some pid) (some owner.nonce))).goto pid
          (LockState.created site owner))
  | unlink (removal : Removal) :
      Effect s pid (.unlink removal) ((s.setFile removal.path none).goto pid (removed removal true))

variable {s : LockState} {pc pc' : Pc} {pid : ℕ}

theorem Effect.stay (h : Jump s pc pc') :
    Effect s pid pc (s.goto pid pc') := .jump pc pc' s.handles h

theorem readCall_effect (s : LockState) (pid : ℕ) (round : Round) (info : Info) :
    Effect s pid (.read round info) (s.readCall pid round info) := by
  unfold readCall
  split
  next h => exact .stay (.vanished round info h)
  next f h =>
    split
    next ht => exact .stay (.unparsed round info f h (.inl ht))
    next ht => exact .stay (.unparsed round info f h (.inr ht))
    next owner nonce ht => exact .stay (.parsed round info f owner nonce h ht)
    next nonce ht => exact .stay (.anonymous round info f nonce h ht)

theorem compareCall_effect (s : LockState) (pid : ℕ) (removal : Removal) :
    Effect s pid (.compare removal) (s.compareCall pid removal) := by
  unfold compareCall
  split
  next h =>
    refine .stay (.differs removal ?_)
    intro f hf
    rw [h] at hf
    cases hf
  next f h =>
    split
    next hid =>
      refine .stay (.differs removal ?_)
      intro g hg
      rw [h] at hg
      cases hg
      exact hid
    next hid =>
      have hid : f.id=removal.expected.id := by simpa using hid
      split
      next hn => exact .stay (.matches removal f h hid hn)
      next nonce hn => exact .stay (.nonce removal f nonce h hid hn)

theorem compareNonceCall_effect (s : LockState) (pid : ℕ) (removal : Removal) (nonce : ℕ) :
    Effect s pid (.compareNonce removal nonce) (s.compareNonceCall pid removal nonce) := by
  unfold compareNonceCall
  split
  next owner found h =>
    obtain ⟨f,hf,ht⟩ := Option.map_eq_some_iff.mp h
    split
    next he =>
      subst he
      exact .stay (.nonceMatches removal found f owner hf ht)
    next he =>
      refine .stay (.nonceDiffers removal nonce ?_)
      intro g owner' hg htex
      rw [hf] at hg
      cases hg
      rw [ht] at htex
      cases htex
      exact he rfl
  next hno =>
    refine .stay (.nonceDiffers removal nonce ?_)
    intro f owner hf ht
    exact hno owner nonce (by rw [hf,Option.map_some,ht])

variable {t : LockState} {path : LockPath}

theorem createCall_effect {site : Site} {draw : Draw} (h : s.createCall pid site draw=some t) :
    Effect s pid (.create site) t := by
  unfold createCall at h
  split at h
  next f hf =>
    cases h
    exact .stay (.exists site f hf)
  next hf =>
    split at h
    next hd =>
      cases h
      exact .create site draw hf ((Bool.and_eq_true _ _).mp hd).2
    · cases h

theorem writeCall_effect (s : LockState) (pid : ℕ) (site : Site) (owner : LockOwner) (torn : Bool)
    (draw : Draw) : Effect s pid (.write site owner torn) (s.writeCall pid site owner torn draw) := by
  unfold writeCall
  split
  next ht =>
    have hfal : torn=false := by
      simpa using ((Bool.and_eq_true _ _).mp ht).2
    rw [hfal]
    exact .tear site owner
  · exact .write site owner torn

theorem call_effect {draw : Draw} (h : s.call pid draw=some t) : ∃ pc, s.procs pid=.alive pc ∧ Effect s pid pc t := by
  unfold call at h
  split at h
  next hp =>
    cases h
    exact ⟨_,hp,.stay .enter⟩
  next site hp => exact ⟨_,hp,createCall_effect h⟩
  next site owner hp =>
    cases h
    exact ⟨_,hp,.stay (.stat site owner)⟩
  next site owner torn hp =>
    cases h
    exact ⟨_,hp,writeCall_effect s pid site owner torn draw⟩
  next round hp =>
    split at h
    next hf =>
      cases h
      exact ⟨_,hp,.stay (.absent round hf)⟩
    next f hf =>
      cases h
      exact ⟨_,hp,.stay (.present round f hf)⟩
  next round info hp =>
    cases h
    exact ⟨_,hp,readCall_effect s pid round info⟩
  next round info owner nonce hp =>
    split at h
    next ha =>
      cases h
      exact ⟨_,hp,.stay (.running round info owner nonce ha)⟩
    next ha =>
      cases h
      exact ⟨_,hp,.stay (.dead round info owner nonce (by simpa using ha))⟩
  next round info nonce hp =>
    split at h
    next hy =>
      cases h
      exact ⟨_,hp,.stay (.young round info nonce hy)⟩
    next ho =>
      cases h
      exact ⟨_,hp,.stay (.old round info nonce (by omega))⟩
  next removal hp =>
    cases h
    exact ⟨_,hp,.jump _ _ _ (.close removal)⟩
  next removal hp =>
    cases h
    exact ⟨_,hp,compareCall_effect s pid removal⟩
  next removal nonce hp =>
    cases h
    exact ⟨_,hp,compareNonceCall_effect s pid removal nonce⟩
  next removal hp =>
    cases h
    exact ⟨_,hp,.unlink removal⟩
  next owner hp =>
    cases h
    exact ⟨_,hp,.stay (.leave owner)⟩
  · cases h
  · cases h

theorem procs_self (s : LockState) (pid : ℕ) (pc : Pc) : (s.goto pid pc).procs pid=.alive pc :=
  Function.update_self ..

theorem procs_other (s : LockState) {q : ℕ} (pc : Pc) (h : q≠pid) :
    (s.goto pid pc).procs q=s.procs q := Function.update_of_ne h ..

theorem file_self (s : LockState) (path : LockPath) (file : Option LockFile) :
    (s.setFile path file).file path=file := Function.update_self ..

theorem file_other (s : LockState) {p : LockPath} (file : Option LockFile) (h : p≠path) :
    (s.setFile path file).file p=s.file p := Function.update_of_ne h ..

/- A write changes at most the file that its handle refers to. -/
theorem writeTo_file (s : LockState) (path p : LockPath) (owner : LockOwner) (text : LockText)
    {f : LockFile} (h : (s.writeTo path owner text).file p=some f) :
    s.file p=some f ∨ ∃ g, p=path ∧ s.file path=some g ∧ g.serial=owner.serial ∧
      f = { g with text := text, mtime := s.now } := by
  unfold writeTo at h
  split at h
  next g hg =>
    split at h
    next hs =>
      by_cases hp : p=path
      · subst hp
        rw [file_self] at h
        exact .inr ⟨g,rfl,hg,hs,(Option.some.inj h).symm⟩
      · rw [file_other _ _ hp] at h
        exact .inl h
    · exact .inl h
  · exact .inl h

theorem writeTo_rest (s : LockState) (path : LockPath) (owner : LockOwner) (text : LockText) :
    (s.writeTo path owner text).procs=s.procs ∧ (s.writeTo path owner text).drawn=s.drawn ∧
      (s.writeTo path owner text).nextSerial=s.nextSerial ∧
      (s.writeTo path owner text).now=s.now := by
  unfold writeTo
  split
  · split <;> exact ⟨rfl,rfl,rfl,rfl⟩
  · exact ⟨rfl,rfl,rfl,rfl⟩

def Pc.writes : Pc → Option LockOwner
  | .stat _ owner | .write _ owner _ => some owner
  | _ => none

structure Records (s : LockState) : Prop where
  serial : ∀ path f, s.file path=some f → f.serial<s.nextSerial
  creator : ∀ path f, s.file path=some f → ∃ k, (k,f.creator) ∈ s.drawn
  times : ∀ path f, s.file path=some f → f.created≤f.mtime ∧ f.mtime ≤ s.now
  text : ∀ path f owner nonce, s.file path=some f → f.text=.record owner nonce →
    owner=some f.creator ∧ ∃ k, nonce=some k ∧ (k,f.creator) ∈ s.drawn
  writer : ∀ pid pc owner, s.procs pid=.alive pc → pc.writes=some owner →
    owner.serial<s.nextSerial ∧ (owner.nonce,pid) ∈ s.drawn ∧
      ∀ path f, s.file path=some f → f.serial=owner.serial →
        f.creator=pid ∧ ∀ o nonce, f.text≠.record o nonce
  unique : ∀ k p q, (k,p) ∈ s.drawn → (k,q) ∈ s.drawn → p=q
  born : ∀ k p, (k,p) ∈ s.drawn → s.procs p≠.unborn

theorem Jump.writes (h : Jump s pc pc') {owner : LockOwner}
    (hw : pc'.writes=some owner) : pc.writes=some owner := by
  have hnon : ∀ site : Site, (existing site).writes=none := by
    intro site
    cases site <;> rfl
  have hmis : ∀ round : Round, (missing round).writes=none := by
    intro round
    cases round <;> rfl
  have href : ∀ round : Round, (refused round).writes=none := by
    intro round
    cases round <;> rfl
  have hsta : ∀ (round : Round) current, (stale round current).writes=none := by
    intro round current
    cases round <;> rfl
  have hrem : ∀ removal, (removed removal false).writes=none := by
    intro removal
    rcases removal with _ | ⟨_,_ | _⟩ | _ <;> rfl
  cases h with
  | stat => exact hw
  | «exists» site => simp [hnon] at hw
  | absent | vanished => simp [hmis] at hw
  | running | young => simp [href] at hw
  | dead | old => simp [hsta] at hw
  | differs | nonceDiffers => simp [hrem] at hw
  | _ => cases hw

theorem Records.move (h : Records s) (hf : t.file=s.file) (hd : t.drawn=s.drawn) (hn : t.nextSerial=s.nextSerial)
    (hnow : s.now≤t.now) (hp : ∀ pid pc owner, t.procs pid=.alive pc → pc.writes=some owner →
      ∃ pc', s.procs pid=.alive pc' ∧ pc'.writes=some owner) (hb : ∀ pid, s.procs pid≠.unborn → t.procs pid≠.unborn) :
    Records t := by
  refine ⟨?_,?_,?_,?_,?_,?_,?_⟩
  · rw [hf,hn]
    exact h.serial
  · rw [hf,hd]
    exact h.creator
  · intro path f hfil
    rw [hf] at hfil
    have := h.times path f hfil
    exact ⟨this.1,Nat.le_trans this.2 hnow⟩
  · rw [hf,hd]
    exact h.text
  · intro pid pc owner hpid hw
    obtain ⟨pc',hpid',hw'⟩ := hp pid pc owner hpid hw
    rw [hf,hd,hn]
    exact h.writer pid pc' owner hpid' hw'
  · rw [hd]
    exact h.unique
  · intro k p hk
    rw [hd] at hk
    exact hb p (h.born k p hk)

theorem goto_born {q : ℕ} (h : s.procs q≠.unborn) : (s.goto pid pc).procs q≠.unborn := by
  by_cases he : q=pid
  · subst he
    rw [procs_self]
    nofun
  · rw [procs_other s pc he]
    exact h

theorem Records.create (h : Records s) {id : FileId} {nonce : ℕ} (handles : List (ℕ × FileId))
    (hp : s.procs pid=.alive pc) (hw : pc'.writes=some ⟨nonce,id,s.nextSerial⟩) (hn : s.unusedNonce nonce=true) :
    Records { (s.setFile path (some (freshFile s pid id))).goto pid pc' with
      handles := handles
      drawn := (nonce,pid)::s.drawn
      nextSerial := s.nextSerial+1 } := by
  have hunu : ∀ q, (nonce,q) ∉ s.drawn := by
    intro q hm
    have := all_eq_true.mp hn _ hm
    simp at this
  have hfie : ∀ p f, (s.setFile path (some (freshFile s pid id))).file p=some f →
      f=freshFile s pid id ∨ s.file p=some f := by
    intro p f hf
    by_cases he : p=path
    · subst he
      rw [file_self] at hf
      exact .inl (Option.some.inj hf).symm
    · rw [file_other _ _ he] at hf
      exact .inr hf
  refine ⟨?_,?_,?_,?_,?_,?_,?_⟩
  · intro p f hf
    rcases hfie p f hf with rfl | hf
    · exact Nat.lt_succ_self _
    · exact Nat.lt_succ_of_lt (h.serial p f hf)
  · intro p f hf
    rcases hfie p f hf with rfl | hf
    · exact ⟨nonce,mem_cons_self⟩
    · obtain ⟨k,hk⟩ := h.creator p f hf
      exact ⟨k,mem_cons_of_mem _ hk⟩
  · intro p f hf
    rcases hfie p f hf with rfl | hf
    · exact ⟨Nat.le_refl _,Nat.le_refl _⟩
    · exact h.times p f hf
  · intro p f owner k hf ht
    rcases hfie p f hf with rfl | hf
    · cases ht
    · obtain ⟨ho,k',hk,hd⟩ := h.text p f owner k hf ht
      exact ⟨ho,k',hk,mem_cons_of_mem _ hd⟩
  · intro q qc owner hq hwri
    by_cases he : q=pid
    · subst he
      cases (procs_self _ q pc').symm.trans hq
      cases hw.symm.trans hwri
      refine ⟨Nat.lt_succ_self _,mem_cons_self,?_⟩
      intro p f hf hs
      rcases hfie p f hf with rfl | hf
      · exact ⟨rfl,nofun⟩
      · have := h.serial p f hf
        rw [hs] at this
        exact absurd this (Nat.lt_irrefl _)
    · obtain ⟨hlt,hd,hfil⟩ := h.writer q qc owner ((procs_other _ pc' he).symm.trans hq) hwri
      refine ⟨Nat.lt_succ_of_lt hlt,mem_cons_of_mem _ hd,?_⟩
      intro p f hf hs
      rcases hfie p f hf with rfl | hf
      · rw [← hs] at hlt
        exact absurd hlt (Nat.lt_irrefl _)
      · exact hfil p f hf hs
  · intro k p q hp' hq'
    rcases mem_cons.mp hp' with he | hp'
    · cases he
      rcases mem_cons.mp hq' with he | hq'
      · cases he
        rfl
      · exact absurd hq' (hunu q)
    · rcases mem_cons.mp hq' with he | hq'
      · cases he
        exact absurd hp' (hunu p)
      · exact h.unique k p q hp' hq'
  · intro k p hk
    refine goto_born ?_
    rcases mem_cons.mp hk with he | hk
    · cases he
      show s.procs pid≠.unborn
      rw [hp]
      nofun
    · exact h.born k p hk

theorem Records.write (h : Records s) {owner : LockOwner} {text : LockText} (hp : s.procs pid=.alive pc)
    (hw : pc.writes=some owner) (hw' : ∀ o, pc'.writes=some o → o=owner ∧ text=.torn)
    (ht : text=.torn ∨ text=.record (some pid) (some owner.nonce)) :
    Records ((s.writeTo path owner text).goto pid pc') := by
  obtain ⟨hpro,hdra,hser,hnow⟩ := writeTo_rest s path owner text
  obtain ⟨hlt,hown,hfil⟩ := h.writer pid pc owner hp hw
  -- a file after the write has the serial, the creator and the birth of one before it
  have hfie : ∀ p f, (s.writeTo path owner text).file p=some f → ∃ g, s.file p=some g ∧
      f.serial=g.serial ∧ f.creator=g.creator ∧ f.created=g.created ∧
      (f=g ∨ (g.creator=pid ∧ f.mtime=s.now ∧ f.text=text)) := by
    intro p f hf
    rcases writeTo_file s path p owner text hf with hf | ⟨g,rfl,hg,hs,rfl⟩
    · exact ⟨f,hf,rfl,rfl,rfl,.inl rfl⟩
    · exact ⟨g,hg,rfl,rfl,rfl,.inr ⟨(hfil _ g hg hs).1,rfl,rfl⟩⟩
  refine ⟨?_,?_,?_,?_,?_,?_,?_⟩
  · intro p f hf
    obtain ⟨g,hg,hs,_⟩ := hfie p f hf
    show f.serial<(s.writeTo path owner text).nextSerial
    rw [hser,hs]
    exact h.serial p g hg
  · intro p f hf
    obtain ⟨g,hg,_,hc,_⟩ := hfie p f hf
    show ∃ k, (k,f.creator) ∈ (s.writeTo path owner text).drawn
    rw [hdra,hc]
    exact h.creator p g hg
  · intro p f hf
    obtain ⟨g,hg,_,_,hcr,hcas⟩ := hfie p f hf
    have htim:=h.times p g hg
    show f.created≤f.mtime ∧ f.mtime≤(s.writeTo path owner text).now
    rw [hnow]
    rcases hcas with rfl | ⟨_,hm,_⟩
    · exact htim
    · omega
  · intro p f o nonce hf htex
    obtain ⟨g,hg,_,hc,_,hcas⟩ := hfie p f hf
    show o=some f.creator ∧ ∃ k, nonce=some k ∧ (k,f.creator) ∈ (s.writeTo path owner text).drawn
    rw [hdra]
    rcases hcas with rfl | ⟨hpid,_,htf⟩
    · exact h.text p f o nonce hg htex
    · rw [htf] at htex
      rcases ht with rfl | rfl
      · cases htex
      · cases htex
        rw [hc,hpid]
        exact ⟨rfl,owner.nonce,rfl,hown⟩
  · intro q qc o hq hwri
    show o.serial<(s.writeTo path owner text).nextSerial ∧
      (o.nonce,q) ∈ (s.writeTo path owner text).drawn ∧ _
    rw [hser,hdra]
    by_cases he : q=pid
    · subst he
      cases (procs_self _ q pc').symm.trans hq
      obtain ⟨rfl,htor⟩ := hw' o hwri
      refine ⟨hlt,hown,?_⟩
      intro p f hf hs
      obtain ⟨g,hg,hs',hc,_,hcas⟩ := hfie p f hf
      obtain ⟨hcre,htex⟩ := hfil p g hg (hs'.symm.trans hs)
      refine ⟨hc.trans hcre,?_⟩
      rcases hcas with rfl | ⟨_,_,htf⟩
      · exact htex
      · rw [htf,htor]
        nofun
    · have hq':=(procs_other _ pc' he).symm.trans hq
      rw [hpro] at hq'
      obtain ⟨hlt',hown',hfil'⟩ := h.writer q qc o hq' hwri
      refine ⟨hlt',hown',?_⟩
      intro p f hf hs
      obtain ⟨g,hg,hs',hc,_,hcas⟩ := hfie p f hf
      obtain ⟨hcre,htex⟩ := hfil' p g hg (hs'.symm.trans hs)
      rcases hcas with rfl | ⟨hpid,_⟩
      · exact ⟨hcre,htex⟩
      · exact absurd (hcre.symm.trans hpid) he
  · show ∀ k p q, (k,p) ∈ (s.writeTo path owner text).drawn →
      (k,q) ∈ (s.writeTo path owner text).drawn → p=q
    rw [hdra]
    exact h.unique
  · intro k p hk
    refine goto_born ?_
    rw [hpro]
    change (k,p) ∈ (s.writeTo path owner text).drawn at hk
    rw [hdra] at hk
    exact h.born k p hk

theorem created_writes (site : Site) (owner o : LockOwner) :
    (LockState.created site owner).writes≠some o := by
  cases site <;> nofun

theorem removed_writes (removal : Removal) (ok : Bool) (o : LockOwner) :
    (removed removal ok).writes≠some o := by
  rcases removal with _ | ⟨_,_ | _⟩ | _ <;> cases ok <;> nofun

theorem Records.unlink (h : Records s) (hp : s.procs pid=.alive pc) (hw : ∀ o, pc'.writes≠some o) :
    Records ((s.setFile path none).goto pid pc') := by
  have hfie : ∀ p f, (s.setFile path none).file p=some f → s.file p=some f := by
    intro p f hf
    by_cases he : p=path
    · subst he
      rw [file_self] at hf
      cases hf
    · rw [file_other _ _ he] at hf
      exact hf
  refine ⟨fun p f hf => h.serial p f (hfie p f hf),fun p f hf => h.creator p f (hfie p f hf),
    fun p f hf => h.times p f (hfie p f hf),fun p f o n hf => h.text p f o n (hfie p f hf),?_,
    h.unique,fun k p hk => goto_born (h.born k p hk)⟩
  intro q qc o hq hwri
  by_cases he : q=pid
  · subst he
    cases (procs_self _ q pc').symm.trans hq
    exact absurd hwri (hw o)
  · obtain ⟨hlt,hd,hfil⟩ := h.writer q qc o ((procs_other _ pc' he).symm.trans hq) hwri
    exact ⟨hlt,hd,fun p f hf => hfil p f (hfie p f hf)⟩

theorem records_effect (h : Records s) (hp : s.procs pid=.alive pc) (he : Effect s pid pc t) : Records t := by
  cases he with
  | jump _ pc' handles hj =>
    refine h.move rfl rfl rfl (Nat.le_refl _) ?_ ?_
    · intro q qc owner hq hw
      by_cases heq : q=pid
      · subst heq
        cases (procs_self s q pc').symm.trans hq
        exact ⟨pc,hp,hj.writes hw⟩
      · exact ⟨qc,(procs_other s pc' heq).symm.trans hq,hw⟩
    · exact fun q hq => goto_born hq
  | create site draw _ hn => exact h.create _ hp rfl hn
  | tear site owner =>
    refine h.write hp rfl ?_ (.inl rfl)
    intro o ho
    exact ⟨(Option.some.inj ho).symm,rfl⟩
  | write site owner torn =>
    refine h.write hp rfl ?_ (.inr rfl)
    intro o ho
    exact absurd ho (created_writes site owner o)
  | unlink removal => exact h.unlink hp (removed_writes removal true)

theorem records_step {a : LockAction} (h : Records s) (hs : lockSystem.step s a=some t) : Records t := by
  change lockStep s a=some t at hs
  cases a with
  | tick ms =>
    simp only [lockStep] at hs
    split at hs
    · cases hs
      exact h.move rfl rfl rfl (Nat.le_add_right _ _) (fun _ pc _ hq hw => ⟨pc,hq,hw⟩)
        (fun _ => id)
    · cases hs
  | spawn pid =>
    simp only [lockStep] at hs
    split at hs
    · cases hs
      refine h.move rfl rfl rfl (Nat.le_refl _) ?_ (fun _ => goto_born)
      intro q qc owner hq hw
      by_cases heq : q=pid
      · subst heq
        cases (procs_self s q .idle).symm.trans hq
        cases hw
      · exact ⟨qc,(procs_other s .idle heq).symm.trans hq,hw⟩
    · cases hs
  | crash pid =>
    simp only [lockStep] at hs
    split at hs
    · cases hs
      refine h.move rfl rfl rfl (Nat.le_refl _) ?_ ?_
      · intro q qc owner hq hw
        by_cases heq : q=pid
        · subst heq
          cases (Function.update_self q Proc.dead s.procs).symm.trans hq
        · exact ⟨qc,(Function.update_of_ne heq ..).symm.trans hq,hw⟩
      · intro q hq
        by_cases heq : q=pid
        · subst heq
          show Function.update s.procs q Proc.dead q≠.unborn
          rw [Function.update_self]
          nofun
        · show Function.update s.procs pid Proc.dead q≠.unborn
          rw [Function.update_of_ne heq]
          exact hq
    · cases hs
  | call pid draw =>
    obtain ⟨pc,hp,he⟩ := call_effect hs
    exact records_effect h hp he

theorem records_start (now : ℕ) : Records (.start now) := by
  refine ⟨?_,?_,?_,?_,?_,?_,?_⟩
  · intro _ _ hf
    cases hf
  · intro _ _ hf
    cases hf
  · intro _ _ hf
    cases hf
  · intro _ _ _ _ hf
    cases hf
  · intro _ _ _ hp
    cases hp
  · intro _ _ _ hk
    cases hk
  · intro _ _ hk
    cases hk

theorem reachable_records (h : lockSystem.Reachable s) : Records s := by
  refine h.invariant ?_ (fun _ _ _ => records_step)
  rintro _ ⟨now,rfl⟩
  exact records_start now

end Qubicl.Cli
