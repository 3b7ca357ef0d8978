import Qubicl.Cli.Transaction.Engine
import Qubicl.Core.LegacyJournal

/-!
# What recovery does to the homes

Recovery secures directories, writes metadata and moves the directory of a computer as a whole.
-/

namespace Qubicl.Cli
open Foundation Core Durable

variable {F R α β : Type} [EmptyCollection F]

/- What happens to a directory that is made secure: it appears, empty but for what
is put in it, or its mode becomes 0700. -/
inductive Secures [EmptyCollection α] (uid : ℕ) (kept : α → α → Prop) : Place α → Place α → Prop
  | same (place : Place α) : Secures uid kept place place
  | created (t : α) (h : kept ∅ t) : Secures uid kept .absent (.real uid 0o700 t)
  | real (owner mode mode' : ℕ) (c t : α) (hmode : mode'=mode ∨ mode'=0o700) (h : kept c t) :
    Secures uid kept (.real owner mode c) (.real owner mode' t)

def HomeKept (uid : ℕ) (before after : HomeDirectory F) : Prop :=
  after.rest=before.rest ∧ Secures uid Eq before.qubicl after.qubicl

def DirectoryKept (uid : ℕ) (before after : ComputerDirectory F) : Prop :=
  after.rest=before.rest ∧ Secures uid (HomeKept uid) before.home after.home

variable {m : Durable α String β} {path : String}

section Secures
variable [EmptyCollection α] {uid : ℕ} {kept : α → α → Prop} [IsPreorder α kept]

theorem Secures.trans {p q r : Place α} (h : Secures uid kept p q) (h' : Secures uid kept q r) :
    Secures uid kept p r := by
  cases h with
  | same => exact h'
  | created t ht =>
    cases h' with
    | same => exact .created t ht
    | real _ _ mode' _ u hmode hu =>
      have : mode'=0o700 := hmode.elim id id
      rw [this]
      exact .created u (trans_of kept ht hu)
  | real owner mode mode' c t hmode ht =>
    cases h' with
    | same => exact .real owner mode mode' c t hmode ht
    | real _ _ mode'' _ u hmode' hu =>
      refine .real owner mode mode'' c u ?_ (trans_of kept ht hu)
      omega

omit [IsPreorder α kept] in
theorem Secures.isReal {p q : Place α} (h : Secures uid kept p q) (hp : p.isReal=true) :
    q.isReal=true := by
  cases h with
  | same => exact hp
  | created => rfl
  | real => rfl

def SecuresTo (uid : ℕ) (kept : α → α → Prop) (m : Durable (Place α) String β) : Prop :=
  ∀ p, wp m ⟨fun t => Secures uid kept p t,fun _ t => Secures uid kept p t ∧ t.isReal=true,
    fun _ t => Secures uid kept p t⟩ p

theorem ensureSecureDirectory_secures (path : String) :
    SecuresTo uid kept (ensureSecureDirectory uid path) := by
  intro p
  unfold ensureSecureDirectory
  rw [wp_bind]
  have hrea : ∀ (owner mode : ℕ) (c : α), Secures uid kept p (.real owner mode c) →
      Secures uid kept p (.real owner 0o700 c) →
      wp (reads (assertOwnDirectory uid path) >>= fun _ => write (Place.chmod 0o700))
        ⟨fun t => Secures uid kept p t,fun _ t => Secures uid kept p t ∧ t.isReal=true,
          fun _ t => Secures uid kept p t⟩ (.real owner mode c) := by
    intro owner mode c h h'
    rw [wp_bind,wp_reads,assertOwnDirectory]
    split
    · simp [Place.chmod,Place.isReal,h']
    · exact h
  cases p with
  | absent =>
    have hcre : Secures uid kept (.absent : Place α) (.real uid 0o700 ∅) :=
      .created ∅ (refl_of kept ∅)
    refine wp_of_ok rfl ?_ (hrea uid 0o700 ∅ hcre hcre)
    intro t ht
    rw [List.mem_singleton.1 ht]
    exact hcre
  | real owner mode c =>
    exact wp_of_ok rfl (by simp) (hrea owner mode c (.same _)
      (.real owner mode 0o700 c c (.inr rfl) (refl_of kept c)))
  | link target =>
    cases target with
    | none => exact wp_of_error rfl (by simp) (.same _)
    | some c =>
      refine wp_of_ok rfl (by simp) ?_
      simp [wp_reads,assertOwnDirectory,Secures.same]
  | foreign directory => exact wp_of_error rfl (by simp) (.same _)

theorem inside_secures (h : ∀ c, Keeps (kept c) m) {p : Place α} (hp : p.isReal=true) :
    wp (inside path m) ⟨fun t => Secures uid kept p t,
      fun _ t => Secures uid kept p t ∧ t.isReal=true,fun _ t => Secures uid kept p t⟩ p := by
  cases p with
  | real owner mode c =>
    have hkee : ∀ t, kept c t → Secures uid kept (.real owner mode c) (.real owner mode t) :=
      fun t ht => .real owner mode mode c t (.inl rfl) ht
    rw [wp_inside]
    exact (h c c (refl_of kept c)).mono hkee (fun _ t ht => ⟨hkee t ht,rfl⟩) (fun _ t ht => hkee t ht)
  | absent => simp [Place.isReal] at hp
  | link => simp [Place.isReal] at hp
  | foreign => simp [Place.isReal] at hp

theorem secure_inside (path : String) (h : ∀ c, Keeps (kept c) m) :
    SecuresTo uid kept (ensureSecureDirectory uid path >>= fun _ => inside path m) := by
  intro p
  have hsec : SecuresTo uid kept (ensureSecureDirectory uid path) := ensureSecureDirectory_secures path
  rw [wp_bind]
  apply (hsec p).mono
  · exact fun _ ht => ht
  · intro _ q hq
    exact (inside_secures h hq.2).mono (fun _ ht => hq.1.trans ht)
      (fun _ _ ht => ⟨hq.1.trans ht.1,ht.2⟩) (fun _ _ ht => hq.1.trans ht)
  · exact fun _ _ ht => ht

theorem SecuresTo.keeps {m : Durable (Place α) String β} (h : SecuresTo uid kept m) (p : Place α) :
    Keeps (Secures uid kept p) m := by
  intro q hq
  exact (h q).mono (fun _ ht => hq.trans ht) (fun _ _ ht => hq.trans ht.1) (fun _ _ ht => hq.trans ht)

end Secures

section Directories
variable {uid : ℕ}

instance : IsPreorder (HomeDirectory F) (HomeKept uid) where
  refl _ := ⟨rfl,.same _⟩
  trans _ _ _ h h' := ⟨h'.1.trans h.1,h.2.trans h'.2⟩

instance : IsPreorder (ComputerDirectory F) (DirectoryKept uid) where
  refl _ := ⟨rfl,.same _⟩
  trans _ _ _ h h' := ⟨h'.1.trans h.1,h.2.trans h'.2⟩

theorem home_secures (home qubicl : String) :
    SecuresTo uid (HomeKept uid) (ensureSecureDirectory uid home >>= fun _ => inside home
      (zoom (HomeDirectory.qubiclLens (F := F)) (ensureSecureDirectory uid qubicl))) :=
  secure_inside home fun h =>
    Keeps.part (l := HomeDirectory.qubiclLens) (fun _ _ hres => hres)
      ((ensureSecureDirectory_secures qubicl).keeps h.qubicl)

theorem saveMetadataInDirectory_secures (directory : String) (metadata : ComputerMetadata) :
    SecuresTo uid (DirectoryKept uid)
      (saveMetadataInDirectory (F := F) uid directory metadata) := by
  apply secure_inside
  intro c
  apply Keeps.bind
  · exact Keeps.part (l := ComputerDirectory.homeLens) (fun _ _ hres => hres)
      ((home_secures _ _).keeps c.home)
  · intro _
    exact keeps_zoom_of_frame fun d t hd => hd

end Directories

def Slot.Orderly (s : Slot F) : Prop :=
  (s.active=.absent ∨ s.active.isReal=true) ∧ (s.trash=.absent ∨ s.trash.isReal=true) ∧
    ¬ (s.active.isReal=true ∧ s.trash.isReal=true)

def OnlyAt (uid : ℕ) (p : Place (ComputerDirectory F)) (s : Slot F) : Prop :=
  s.active.isReal=true ∧ Secures uid (DirectoryKept uid) p s.active ∧ s.trash=.absent ∨
    s.active=.absent ∧ s.trash.isReal=true ∧ Secures uid (DirectoryKept uid) p s.trash

/-- What is left of the directories at an ID, without the removal of a staging directory. -/
structure TreesKept (uid : ℕ) (before after : Slot F) : Prop where
  disorderly : ¬ before.Orderly → after=before
  active : before.active.isReal=true → before.trash=.absent → OnlyAt uid before.active after
  trash : before.active=.absent → before.trash.isReal=true → OnlyAt uid before.trash after
  fresh : before.active=.absent → before.trash=.absent → after.staged=before.staged →
    after.active=.absent ∧ after.trash=.absent ∨ OnlyAt uid .absent after
  staged : after.staged=before.staged ∨ before.active=.absent ∧ before.trash=.absent ∧
    before.staged.isReal=true ∧ after.staged=.absent ∧ OnlyAt uid before.staged after

section Slots
variable {uid : ℕ} {s t u : Slot F}

variable {p : Place (ComputerDirectory F)}

theorem OnlyAt.not_absent (h : OnlyAt uid p s)
    (hact : s.active=.absent) (htra : s.trash=.absent) : False := by
  rcases h with ⟨hrea,-,-⟩ | ⟨-,hrea,-⟩
  · simp [hact,Place.isReal] at hrea
  · simp [htra,Place.isReal] at hrea

theorem OnlyAt.of_secures {q : Place (ComputerDirectory F)} (h : Secures uid (DirectoryKept uid) p q)
    (hq : OnlyAt uid q s) : OnlyAt uid p s := by
  rcases hq with ⟨hrea,hkep,habs⟩ | ⟨habs,hrea,hkep⟩
  · exact .inl ⟨hrea,h.trans hkep,habs⟩
  · exact .inr ⟨habs,hrea,h.trans hkep⟩

theorem OnlyAt.step (h : OnlyAt uid p s) (hst : TreesKept uid s t) :
    OnlyAt uid p t := by
  rcases h with ⟨hrea,hkep,habs⟩ | ⟨habs,hrea,hkep⟩
  · exact .of_secures hkep (hst.active hrea habs)
  · exact .of_secures hkep (hst.trash habs hrea)

theorem TreesKept.refl (s : Slot F) : TreesKept uid s s where
  disorderly _ := rfl
  active hrea habs := .inl ⟨hrea,.same _,habs⟩
  trash habs hrea := .inr ⟨habs,hrea,.same _⟩
  fresh hact htra _ := .inl ⟨hact,htra⟩
  staged := .inl rfl

theorem TreesKept.absent_before (h : TreesKept uid s t) (hact : t.active=.absent)
    (htra : t.trash=.absent) : s.active=.absent ∧ s.trash=.absent := by
  by_cases hord : s.Orderly
  · obtain ⟨ha | ha,ht | ht,hbot⟩ := hord
    · exact ⟨ha,ht⟩
    · exact ((h.trash ha ht).not_absent hact htra).elim
    · exact ((h.active ha ht).not_absent hact htra).elim
    · exact absurd ⟨ha,ht⟩ hbot
  · rw [h.disorderly hord] at hact htra
    exact ⟨hact,htra⟩

theorem TreesKept.trans (h : TreesKept uid s t) (h' : TreesKept uid t u) : TreesKept uid s u where
  disorderly hs := by
    have hts:=h.disorderly hs
    rw [← hts] at hs
    exact (h'.disorderly hs).trans hts
  active hrea habs := (h.active hrea habs).step h'
  trash habs hrea := (h.trash habs hrea).step h'
  fresh hact htra hsta := by
    rcases h.staged with hsam | ⟨-,-,hrea,hgon,hmov⟩
    · rcases h.fresh hact htra hsam with ⟨ha,ht⟩ | honly
      · exact h'.fresh ha ht (hsta.trans hsam.symm)
      · exact .inr (honly.step h')
    · -- the staging directory has been moved, so it is not where it was
      rcases h'.staged with hsam | ⟨ha,ht,-⟩
      · rw [hsam.trans hgon] at hsta
        simp [← hsta,Place.isReal] at hrea
      · exact (hmov.not_absent ha ht).elim
  staged := by
    rcases h.staged with hsam | ⟨hact,htra,hrea,hgon,hmov⟩
    · rcases h'.staged with hsam' | ⟨hact,htra,hrea,hgon,hmov⟩
      · exact .inl (hsam'.trans hsam)
      · obtain ⟨ha,ht⟩ := h.absent_before hact htra
        rw [hsam] at hrea hmov
        exact .inr ⟨ha,ht,hrea,hgon,hmov⟩
    · rcases h'.staged with hsam | ⟨ha,ht,-⟩
      · exact .inr ⟨hact,htra,hrea,hsam.trans hgon,hmov.step h'⟩
      · exact (hmov.not_absent ha ht).elim

theorem TreesKept.secure_active
    (hord : s.active=.absent ∨ s.active.isReal=true) (htra : s.trash=.absent)
    (h : Secures uid (DirectoryKept uid) s.active p) : TreesKept uid s { s with active := p } where
  disorderly hs := by
    refine absurd ⟨hord,.inl htra,?_⟩ hs
    simp [htra,Place.isReal]
  active hrea _ := .inl ⟨h.isReal hrea,h,htra⟩
  trash _ hrea := by simp [htra,Place.isReal] at hrea
  fresh hact _ _ := by
    rw [hact] at h
    cases h with
    | same => exact .inl ⟨rfl,htra⟩
    | created c hc => exact .inr (.inl ⟨rfl,.created c hc,htra⟩)
  staged := .inl rfl

theorem TreesKept.secure_trash (hact : s.active=.absent)
    (hrea : s.trash.isReal=true) (h : Secures uid (DirectoryKept uid) s.trash p) :
    TreesKept uid s { s with trash := p } where
  disorderly hs := by
    refine absurd ⟨.inl hact,.inr hrea,?_⟩ hs
    simp [hact,Place.isReal]
  active hact' _ := by simp [hact,Place.isReal] at hact'
  trash _ _ := .inr ⟨hact,h.isReal hrea,h⟩
  fresh _ htra _ := by simp [htra,Place.isReal] at hrea
  staged := .inl rfl

theorem TreesKept.move_active (hact : s.active.isReal=true) (htra : s.trash=.absent) :
    TreesKept uid s { s with active := .absent, trash := s.active } where
  disorderly hs := by
    refine absurd ⟨.inr hact,.inl htra,?_⟩ hs
    simp [htra,Place.isReal]
  active _ _ := .inr ⟨rfl,hact,.same _⟩
  trash hact' _ := by simp [hact',Place.isReal] at hact
  fresh hact' _ _ := by simp [hact',Place.isReal] at hact
  staged := .inl rfl

theorem TreesKept.move_trash (hact : s.active=.absent) (htra : s.trash.isReal=true) :
    TreesKept uid s { s with active := s.trash, trash := .absent } where
  disorderly hs := by
    refine absurd ⟨.inl hact,.inr htra,?_⟩ hs
    simp [hact,Place.isReal]
  active hact' _ := by simp [hact,Place.isReal] at hact'
  trash _ _ := .inl ⟨htra,.same _,rfl⟩
  fresh _ htra' _ := by simp [htra',Place.isReal] at htra
  staged := .inl rfl

theorem TreesKept.move_staged (hact : s.active=.absent) (htra : s.trash=.absent)
    (hsta : s.staged.isReal=true) :
    TreesKept uid s { s with active := s.staged, staged := .absent } where
  disorderly hs := by
    refine absurd ⟨.inl hact,.inl htra,?_⟩ hs
    simp [hact,Place.isReal]
  active hact' _ := by simp [hact,Place.isReal] at hact'
  trash _ htra' := by simp [htra,Place.isReal] at htra'
  fresh _ _ hsam := by
    simp [← hsam,Place.isReal] at hsta
  staged := .inr ⟨hact,htra,hsta,rfl,.inl ⟨hsta,.same _,htra⟩⟩

def Place.Found (place : Place α) : Bool → Prop
  | true => place.isReal=true
  | false => place=.absent

theorem Place.found_eq_some {place : Place α} {b : Bool} : place.found=some b ↔ place.Found b := by
  cases place <;> cases b <;> simp [Place.found,Place.Found,Place.isReal]

theorem wp_realDirectoryExists {S : Type} {get : S → Place α} {k : Bool → Durable S String β}
    {Q : Condition S String β} {s : S} (hthr : ∀ e, (get s).found=none → Q.throws e s)
    (h : ∀ found, (get s).Found found → wp (k found) Q s) :
    wp (reads (fun s => realDirectoryExists path (get s)) >>= k) Q s := by
  rw [wp_bind,wp_reads]
  cases hpla : get s with
  | absent => exact h false hpla
  | real uid mode c => exact h true (by rw [hpla]; rfl)
  | link target => exact hthr _ (by rw [hpla]; rfl)
  | foreign directory => exact hthr _ (by rw [hpla]; rfl)

theorem saveActive_keeps (directory : String) (metadata : ComputerMetadata) (hst : TreesKept uid s t)
    (hord : t.active=.absent ∨ t.active.isReal=true) (htra : t.trash=.absent) :
    wp (zoom Slot.activeLens (saveMetadataInDirectory uid directory metadata))
      ⟨TreesKept uid s,fun _ u => TreesKept uid s u ∧ u.active.isReal=true ∧ u.trash=.absent,
        fun _ => TreesKept uid s⟩ t := by
  rw [wp_zoom]
  have hkep : ∀ p, Secures uid (DirectoryKept uid) t.active p → TreesKept uid s { t with active := p } :=
    fun p hp => hst.trans (.secure_active hord htra hp)
  exact (saveMetadataInDirectory_secures directory metadata t.active).mono hkep
    (fun _ p hp => ⟨hkep p hp.1,hp.2,htra⟩) (fun _ p hp => hkep p hp)

omit [EmptyCollection F] in
theorem wp_durableRename {source destination : Lens (Slot F) (Place (ComputerDirectory F))}
    {Q : Condition (Slot F) String Unit} (h : destination.get t=.absent)
    (hcut : Q.cut (source.set .absent (destination.set (source.get t) t)))
    (hret : Q.returns () (source.set .absent (destination.set (source.get t) t))) :
    wp (durableRename source destination path) Q t := by
  have hm : durableRename source destination path t =
      ⟨[source.set .absent (destination.set (source.get t) t)],.ok ()⟩ := by
    unfold durableRename
    rw [h]
  exact wp_of_ok hm (List.forall_mem_singleton.2 hcut) hret

theorem ensureStagedDirectory_keeps (paths : StatePaths) (id : String) (hst : TreesKept uid s t)
    (hact : t.active=.absent) (htra : t.trash=.absent) :
    wp (ensureStagedDirectory paths id) ⟨TreesKept uid s,
      fun _ u => TreesKept uid s u ∧ u.active.isReal=true ∧ u.trash=.absent,
      fun _ => TreesKept uid s⟩ t := by
  apply wp_realDirectoryExists fun _ _ => hst
  intro stagedExists hsta
  rw [wp_bind,wp_reads]
  cases stagedExists with
  | false => exact (wp_fail _ _ t).2 hst
  | true =>
    simp only [if_true]
    cases restoreReadyExists paths id t with
    | error e => exact hst
    | ok ready =>
      cases ready with
      | false => exact (wp_fail _ _ t).2 hst
      | true =>
        have hmov:=hst.trans (.move_staged hact htra hsta)
        exact wp_durableRename hact hmov ⟨hmov,hsta,htra⟩

theorem removeMarker_keeps (active : String) (hst : TreesKept uid s t) (hact : t.active.isReal=true)
    (htra : t.trash=.absent) :
    wp (zoom Slot.activeLens (inside active (zoom ComputerDirectory.restoreReadyLens
      (durableRemove (join active ".qubicl-restore-ready")))))
      ⟨TreesKept uid s,fun _ => TreesKept uid s,fun _ => TreesKept uid s⟩ t := by
  rw [wp_zoom]
  have hkep : ∀ p, Secures uid (DirectoryKept uid) t.active p → TreesKept uid s { t with active := p } :=
    fun p hp => hst.trans (.secure_active (.inr hact) htra hp)
  apply (inside_secures (fun c => ?_) hact).mono hkep (fun _ p hp => hkep p hp.1)
    (fun _ p hp => hkep p hp)
  exact keeps_zoom_of_frame fun _ _ h => h

theorem ensureActiveDirectory_keeps (paths : StatePaths) (source : ActiveTransactionSource)
    (metadata : ComputerConfig) :
    Keeps (TreesKept uid s) (ensureActiveDirectory uid paths source metadata) := by
  intro t hst
  apply wp_realDirectoryExists fun _ _ => hst
  intro activeExists hact
  apply wp_realDirectoryExists fun _ _ => hst
  intro trashExists htra
  have hfai : ∀ e : String, wp (fail e : Durable (Slot F) String Unit)
      ⟨TreesKept uid s,fun _ => TreesKept uid s,fun _ => TreesKept uid s⟩ t :=
    fun e => (wp_fail e _ t).2 hst
  have hsav : ∀ {u : Slot F}, TreesKept uid s u → (u.active=.absent ∨ u.active.isReal=true) →
      u.trash=.absent → wp (zoom Slot.activeLens (saveMetadataInDirectory uid
        (paths.active metadata.id) { metadata with deletedAt := none }))
        ⟨TreesKept uid s,fun _ => TreesKept uid s,fun _ => TreesKept uid s⟩ u := by
    intro u hsu hord habs
    exact (saveActive_keeps _ _ hsu hord habs).mono (fun _ h => h) (fun _ _ h => h.1) (fun _ _ h => h)
  cases activeExists with
  | true =>
    cases trashExists with
    | true => exact hfai _
    | false =>
      cases source with
      | create => exact hsav hst (.inr hact) htra
      | active => exact hsav hst (.inr hact) htra
      | trash => exact hsav hst (.inr hact) htra
      | staged =>
        apply (wp_bind _ _ _ t).2
        apply (wp_pure () _ t).2
        apply (wp_bind _ _ _ t).2
        exact (saveActive_keeps _ _ hst (.inr hact) htra).mono (fun _ h => h)
          (fun _ u hu => removeMarker_keeps _ hu.1 hu.2.1 hu.2.2) (fun _ _ h => h)
  | false =>
    cases trashExists with
    | true =>
      cases source with
      | create => exact hfai _
      | active => exact hfai _
      | staged => exact hfai _
      | trash =>
        apply (wp_bind _ _ _ t).2
        have hmov:=hst.trans (.move_trash hact htra)
        exact wp_durableRename hact hmov (hsav hmov (.inr htra) rfl)
    | false =>
      cases source with
      | create => exact hsav hst (.inl hact) htra
      | active => exact hfai _
      | trash => exact hfai _
      | staged =>
        apply (wp_bind _ _ _ t).2
        apply (ensureStagedDirectory_keeps paths metadata.id hst hact htra).mono (fun _ h => h) ?_
          (fun _ _ h => h)
        rintro - u ⟨hsu,hrea,habs⟩
        apply (wp_bind _ _ _ u).2
        exact (saveActive_keeps _ _ hsu (.inr hrea) habs).mono (fun _ h => h)
          (fun _ v hv => removeMarker_keeps _ hv.1 hv.2.1 hv.2.2) (fun _ _ h => h)

theorem ensureTrashDirectory_keeps (paths : StatePaths) (metadata : ComputerMetadata) :
    Keeps (TreesKept uid s) (ensureTrashDirectory uid paths metadata) := by
  intro t hst
  apply wp_realDirectoryExists fun _ _ => hst
  intro activeExists hact
  apply wp_realDirectoryExists fun _ _ => hst
  intro trashExists htra
  have hfai : ∀ e : String, wp (fail e : Durable (Slot F) String Unit)
      ⟨TreesKept uid s,fun _ => TreesKept uid s,fun _ => TreesKept uid s⟩ t :=
    fun e => (wp_fail e _ t).2 hst
  cases activeExists with
  | true =>
    cases trashExists with
    | true => exact hfai _
    | false =>
      apply (wp_bind _ _ _ t).2
      apply (saveActive_keeps _ _ hst (.inr hact) htra).mono (fun _ h => h) ?_ (fun _ _ h => h)
      rintro - u ⟨hsu,hrea,habs⟩
      have hmov:=hsu.trans (.move_active hrea habs)
      exact wp_durableRename habs hmov hmov
  | false =>
    cases trashExists with
    | false => exact hfai _
    | true =>
      apply (wp_zoom _ _ _ t).2
      have hkep : ∀ p, Secures uid (DirectoryKept uid) t.trash p → TreesKept uid s { t with trash := p } :=
        fun p hp => hst.trans (.secure_trash hact htra hp)
      exact (saveMetadataInDirectory_secures _ metadata t.trash).mono hkep (fun _ p hp => hkep p hp.1)
        (fun _ p hp => hkep p hp)

end Slots

def DiskKept (uid : ℕ) (before after : Disk F) : Prop :=
  ∀ id, TreesKept uid (before.slots id) (after.slots id)

section Runs
variable {z : Formats} {b : Build} {host : Host F R} {paths : StatePaths}

theorem keeps_slots {d : Disk F} {key : α → String} {f : α → Durable (Slot F) String Unit} {xs : List α}
    (h : ∀ x ∈ xs, Keeps (TreesKept host.uid (d.slots (key x))) (f x)) :
    Keeps (DiskKept host.uid d)
      (zoom Disk.slotsLens (forEach xs fun x => zoom (Lens.at (key x)) (f x))) := by
  apply Keeps.get (l := Disk.slotsLens) (P := fun slots => ∀ id, TreesKept host.uid (d.slots id) (slots id))
  apply keeps_forEach
  intro x hx slots hslo
  rw [wp_zoom]
  have hset : ∀ t : Slot F, TreesKept host.uid (d.slots (key x)) t →
      ∀ id, TreesKept host.uid (d.slots id) ((Lens.at (key x)).set t slots id) := by
    intro t ht id
    by_cases hid : id=key x
    · subst hid
      simpa [Lens.at] using ht
    · simpa [Lens.at,hid] using hslo id
  exact (h x hx _ (hslo (key x))).mono hset (fun _ => hset) (fun _ => hset)

theorem keeps_frame {S : Type} {d : Disk F} {l : Lens (Disk F) S} {m : Durable S String β}
    (h : ∀ t d', (l.set t d').slots=d'.slots) : Keeps (DiskKept host.uid d) (zoom l m) := by
  apply keeps_zoom_of_frame
  intro d' t hd' id
  rw [h]
  exact hd' id

theorem commitState_keeps (d : Disk F) (state : LoadedState) (transaction : StateTransaction) :
    Keeps (fun w => DiskKept host.uid d w.disk) (commitState z host state transaction) := by
  have hdis : ∀ {m : Durable (Disk F) String Unit}, Keeps (DiskKept host.uid d) m →
      Keeps (fun w : World F R => DiskKept host.uid d w.disk) (zoom World.diskLens m) :=
    fun h => h.get (l := World.diskLens)
  apply Keeps.bind
  · apply (hdis (keeps_reads _)).bind
    intro _
    apply (hdis (keeps_slots fun entry _ => ensureActiveDirectory_keeps _ _ _)).bind
    intro _
    apply (hdis (keeps_frame fun _ _ => rfl)).bind
    intro _
    apply (keeps_zoom_of_frame fun _ _ h => h).bind
    exact fun _ => hdis (keeps_slots fun entry _ => ensureTrashDirectory_keeps _ _)
  · exact fun _ => hdis (keeps_frame fun _ _ => rfl)

theorem finishTransaction_keeps (d : Disk F) (options : TransactionOptions R) (state : LoadedState)
    (transaction : StateTransaction) :
    Keeps (fun w => DiskKept host.uid d w.disk)
      (finishTransaction host paths options state transaction) := by
  apply Keeps.ite
  · exact fun _ => keeps_pure ()
  intro _
  apply Keeps.bind
  · exact keeps_zoom_of_frame fun _ _ h => h
  · intro _
    apply Keeps.get (l := World.diskLens)
    exact keeps_frame fun _ _ => rfl

def SameBut (id : String) (before after : Disk F) : Prop :=
  ∀ key, (after.slots key).active=(before.slots key).active ∧
    (after.slots key).trash=(before.slots key).trash ∧
    (key≠id → (after.slots key).staged=(before.slots key).staged)

/- The one removal: the staging directory of an entry without an active directory
and without its ready marker. -/
def StagingRemoved (paths : StatePaths) (entries : List (ActiveTransactionEntry ComputerConfig))
    (before after : Disk F) : Prop :=
  ∃ entry ∈ entries, entry.source=.staged ∧
    (before.slots entry.metadata.id).active=.absent ∧
    restoreReadyExists paths entry.metadata.id (before.slots entry.metadata.id)=.ok false ∧
    SameBut entry.metadata.id before after

omit [EmptyCollection F] in
theorem stagingIncomplete_eq {id : String} {slot : Slot F}
    (h : stagingIncomplete paths id slot=.ok true) :
    slot.active=.absent ∧ restoreReadyExists paths id slot=.ok false := by
  unfold stagingIncomplete at h
  cases hact : realDirectoryExists (paths.active id) slot.active with
  | error e => simp [hact,bind,Except.bind] at h
  | ok found =>
    cases found with
    | true => simp [hact,bind,Except.bind] at h
    | false =>
      cases hrea : restoreReadyExists paths id slot with
      | error e => simp [hact,hrea,bind,Except.bind] at h
      | ok ready =>
        cases ready with
        | true => simp [hact,hrea,bind,Except.bind] at h
        | false => exact ⟨realDirectoryExists_false.1 hact,rfl⟩

omit [EmptyCollection F] in
theorem rollbackIncompleteStaging_removes (entries : List (ActiveTransactionEntry ComputerConfig))
    (d : Disk F) :
    wp (rollbackIncompleteStaging host paths entries) ⟨StagingRemoved paths entries d,
      fun done d' => if done then StagingRemoved paths entries d d' else d'=d,
      fun _ d' => d'=d ∨ StagingRemoved paths entries d d'⟩ d := by
  induction entries with
  | nil => exact (wp_pure false _ d).2 (by simp)
  | cons entry rest ih =>
    have hres : wp (rollbackIncompleteStaging host paths rest)
        ⟨StagingRemoved paths (entry::rest) d,
          fun done d' => if done then StagingRemoved paths (entry::rest) d d' else d'=d,
          fun _ d' => d'=d ∨ StagingRemoved paths (entry::rest) d d'⟩ d := by
      have hsub : ∀ d', StagingRemoved paths rest d d' → StagingRemoved paths (entry::rest) d d' := by
        rintro d' ⟨other,hoth,h⟩
        exact ⟨other,List.mem_cons_of_mem _ hoth,h⟩
      apply ih.mono hsub
      · intro done d'
        cases done
        · exact id
        · exact hsub d'
      · exact fun _ d' => Or.imp_right (hsub d')
    apply (wp_ite _ _ _ d).2
    refine ⟨fun _ => hres,fun hsou => ?_⟩
    rw [wp_bind,wp_reads]
    cases hinc : stagingIncomplete paths entry.metadata.id (d.slots entry.metadata.id) with
    | error e => exact .inl rfl
    | ok incomplete =>
      cases incomplete with
      | false => exact hres
      | true =>
        obtain ⟨hact,hrea⟩ := stagingIncomplete_eq hinc
        have hrem : ∀ d', SameBut entry.metadata.id d d' → StagingRemoved paths (entry::rest) d d' :=
          fun d' h => ⟨entry,List.mem_cons_self,not_not.1 hsou,hact,hrea,h⟩
        -- from here on only this staging directory and the journal are written
        have hkee : Keeps (SameBut entry.metadata.id d)
            (removeStage host paths entry.metadata.id >>= fun _ =>
              zoom Disk.journalLens (durableRemove paths.journal)) := by
          apply Keeps.bind
          · apply Keeps.bind
            · apply keeps_zoom_of_frame
              intro d' place h id
              by_cases hid : id=entry.metadata.id
              · have := h id
                simp_all [Disk.stagedLens,Lens.comp,Lens.at,Disk.slotsLens,Slot.stagedLens]
              · simpa [Disk.stagedLens,Lens.comp,Lens.at,Disk.slotsLens,hid] using h id
            · exact fun _ => keeps_reads _
          · exact fun _ => keeps_zoom_of_frame fun _ _ h => h
        have hwp:=hkee d (fun id => ⟨rfl,rfl,fun _ => rfl⟩)
        rw [wp_bind] at hwp
        apply (wp_bind _ _ _ d).2
        refine hwp.mono (fun d' h => hrem d' h) (fun _ d' h => ?_) (fun _ d' h => .inr (hrem d' h))
        apply (wp_bind _ _ _ d').2
        exact h.mono (fun d' h => hrem d' h) (fun _ d' h => (wp_pure true _ d').2 (hrem d' h))
          (fun _ d' h => .inr (hrem d' h))

def PendingIn (z : Formats) (b : Build) (paths : StatePaths) (d : Disk F)
    (transaction : StateTransaction) : Prop :=
  ∃ document, readPendingTransactionDocument z b paths d.journal=.ok (some document) ∧
    document.1.transaction=transaction

omit [EmptyCollection F] in
theorem readPendingTransaction_reads (d : Disk F) :
    wp (readPendingTransaction z b host paths) ⟨fun d' => d'.slots=d.slots,
      fun pending d' => d'.slots=d.slots ∧ ∀ transaction ∈ pending, PendingIn z b paths d transaction,
      fun _ d' => d'.slots=d.slots⟩ d := by
  unfold readPendingTransaction
  rw [wp_bind,wp_reads]
  cases hrea : readPendingTransactionDocument z b paths d.journal with
  | error e => exact rfl
  | ok pending =>
    cases pending with
    | none => exact (wp_pure none _ d).2 ⟨rfl,by simp⟩
    | some document =>
      have hpen : ∀ transaction ∈ some document.1.transaction, PendingIn z b paths d transaction := by
        intro transaction hmem
        exact ⟨document,hrea,Option.some.inj hmem⟩
      have hkee : ∀ {S α : Type} {l : Lens (Disk F) S} {m : Durable S String α},
          (∀ t d', (l.set t d').slots=d'.slots) →
          Keeps (fun d' : Disk F => d'.slots=d.slots) (zoom l m) :=
        fun h => keeps_zoom_of_frame fun d' t hd' => (h t d').trans hd'
      apply (wp_ite _ _ _ d).2
      refine ⟨fun _ => ?_,fun _ => (wp_pure _ _ d).2 ⟨rfl,hpen⟩⟩
      apply (wp_bind _ _ _ d).2
      refine (hkee (l := Disk.backupsLens) (fun _ _ => rfl) d rfl).mono (fun _ h => h) ?_ (fun _ _ h => h)
      intro _ d' h
      apply (wp_bind _ _ _ d').2
      exact (hkee (l := Disk.journalLens) (fun _ _ => rfl) d' h).mono (fun _ h => h)
        (fun _ d'' h => (wp_pure _ _ d'').2 ⟨h,hpen⟩) (fun _ _ h => h)

theorem DiskKept.of_slots {uid : ℕ} {d d' : Disk F} (h : d'.slots=d.slots) : DiskKept uid d d' := by
  intro id
  rw [h]
  exact .refl _

/-- What recovery may have done to the directories. -/
def HomesSafe (z : Formats) (b : Build) (uid : ℕ) (paths : StatePaths) (before after : Disk F) : Prop :=
  DiskKept uid before after ∨ ∃ transaction, PendingIn z b paths before transaction ∧
    transaction.phase=.prepared ∧ StagingRemoved paths transaction.active before after

theorem carryOut_keeps (d : Disk F) (options : TransactionOptions R) (transaction : StateTransaction) :
    Keeps (fun w => DiskKept host.uid d w.disk) (carryOut z host paths options transaction) := by
  apply Keeps.bind
  · exact keeps_zoom_of_frame fun _ _ h => h
  · intro _
    apply (Keeps.when (commitState_keeps d _ transaction)).bind
    exact fun _ => finishTransaction_keeps d options _ _

theorem recoverPendingTransaction_safe (options : TransactionOptions R) (w : World F R) :
    wp (recoverPendingTransaction z b host paths options)
      ⟨fun t => HomesSafe z b host.uid paths w.disk t.disk,
        fun _ t => HomesSafe z b host.uid paths w.disk t.disk,
        fun _ t => HomesSafe z b host.uid paths w.disk t.disk⟩ w := by
  unfold recoverPendingTransaction
  rw [wp_bind,wp_zoom]
  apply (readPendingTransaction_reads w.disk).mono
  · exact fun d hd => .inl (.of_slots hd)
  · rintro pending d ⟨hd,hpen⟩
    cases pending with
    | none => exact (wp_pure false _ _).2 (.inl (.of_slots hd))
    | some transaction =>
      have hrea:=hpen transaction rfl
      have hrem : ∀ d', transaction.phase=.prepared → StagingRemoved paths transaction.active d d' →
          HomesSafe z b host.uid paths w.disk d' := by
        intro d' hpha h
        refine .inr ⟨transaction,hrea,hpha,?_⟩
        simpa only [StagingRemoved,SameBut,hd] using h
      have hdon : ∀ w' : World F R, DiskKept host.uid w.disk w'.disk →
          wp (carryOut z host paths options transaction >>= fun _ => pure true)
            ⟨fun t => HomesSafe z b host.uid paths w.disk t.disk,
              fun _ t => HomesSafe z b host.uid paths w.disk t.disk,
              fun _ t => HomesSafe z b host.uid paths w.disk t.disk⟩ w' := by
        intro w' h
        exact ((carryOut_keeps w.disk options transaction).bind fun _ => keeps_pure true) w' h |>.mono
          (fun _ h => .inl h) (fun _ _ h => .inl h) (fun _ _ h => .inl h)
      apply (wp_bind _ _ _ _).2
      apply (wp_zoom _ _ _ _).2
      apply (wp_ite _ _ _ _).2
      refine ⟨fun hpha => ?_,fun _ => (wp_pure false _ _).2 (hdon _ (.of_slots hd))⟩
      apply (rollbackIncompleteStaging_removes transaction.active d).mono
      · exact fun d' h => hrem d' hpha h
      · intro done d' h
        cases done with
        | true => exact (wp_pure true _ _).2 (hrem d' hpha h)
        | false =>
          have hsam : d'=d := h
          rw [hsam]
          exact hdon _ (.of_slots hd)
      · rintro _ d' (h | h)
        · rw [h]
          exact .inl (.of_slots hd)
        · exact hrem d' hpha h
  · exact fun _ d hd => .inl (.of_slots hd)

/-- Wherever recovery is cut, and however it ends: at every ID the directories are
kept, or the staging directory of one entry has been removed. -/
theorem recovery_keeps_homes (options : TransactionOptions R) (w t : World F R)
    (h : (recoverPendingTransaction z b host paths options).Visits w t) :
    HomesSafe z b host.uid paths w.disk t.disk := by
  rcases h with rfl | hcut
  · exact .inl (.of_slots rfl)
  · exact (recoverPendingTransaction_safe options w).cutAt hcut

end Runs

def exampleHost : Host (List String) Unit where
  uid := 1000
  remnants _ := []
  remnants_ready := by simp
  renderRuntime _ := pure ()
  digest _ := ⟨"",0⟩
  stamp := ⟨exampleDate,exampleId⟩

def exampleRuntime : TransactionRuntime Unit where
  reconcileContracts _ _ := pure ()
  validate := pure ()
  ensureImages _ := pure ()
  startGateway _ _ _ := pure ()
  replaceStoppedGateway _ _ := pure ()
  verifyGateway _ _ := pure ()
  reconnect _ _ := pure ()
  waitForRemoval _ _ := pure ()
  remove _ _ := pure ()
  removeReplacement _ _ _ := pure ()
  replaceStopped _ _ _ := pure ()
  start _ _ := pure ()
  verifyToken _ _ _ := pure ()

def exampleTransaction (phase : TransactionPhase) : StateTransaction where
  version := 5
  id := exampleId
  operation := .rename
  createdAt := exampleDate
  phase := phase
  config := exampleConfig 5
  secrets := exampleSecrets 5
  active := [⟨.active,exampleComputer⟩]
  trash := []
  runtime := examplePlan

def exampleDirectory : ComputerDirectory (List String) where
  metadata := .absent
  home := .real 1000 0o700 ⟨.absent,["notes.txt"]⟩
  restoreReady := .absent
  rest := []

def exampleDisk (journal : Place TransactionDocument) : Disk (List String) where
  journal := journal
  files := ⟨.absent,.absent⟩
  computers := .real 1000 0o700 ()
  trash := .real 1000 0o700 ()
  restoreStaging := false
  slots id := if id=exampleId then ⟨.real 1000 0o700 exampleDirectory,.absent,.absent⟩
    else ⟨.absent,.absent,.absent⟩
  backups := .absent

def exampleWorld : World (List String) Unit :=
  ⟨exampleDisk (.real 1000 0o600 (.current (exampleTransaction .prepared))),()⟩

def exampleRecovery : Durable (World (List String) Unit) String Bool :=
  recoverPendingTransaction exampleFormats exampleBuild exampleHost ⟨"/home/user/.qubicl"⟩
    ⟨some true,exampleRuntime⟩

def homeAt (w : World (List String) Unit) (id : String) : Option (Place (HomeDirectory (List String))) :=
  (w.disk.slots id).active.content?.map (·.home)

theorem home_directory_added :
    exampleRecovery.Visits exampleWorld (exampleRecovery.final exampleWorld) ∧
      homeAt exampleWorld exampleId=some (.real 1000 0o700 ⟨.absent,["notes.txt"]⟩) ∧
      homeAt (exampleRecovery.final exampleWorld) exampleId =
        some (.real 1000 0o700 ⟨.real 1000 0o700 [],["notes.txt"]⟩) :=
  ⟨final_mem exampleWorld,by decide,by decide +kernel⟩

theorem recovery_keeps_homes_example :
    HomesSafe exampleFormats exampleBuild 1000 ⟨"/home/user/.qubicl"⟩ exampleWorld.disk
      (exampleRecovery.final exampleWorld).disk :=
  @recovery_keeps_homes (List String) Unit _ exampleFormats exampleBuild exampleHost
    ⟨"/home/user/.qubicl"⟩ ⟨some true,exampleRuntime⟩ exampleWorld
    (exampleRecovery.final exampleWorld) (final_mem exampleWorld)

end Qubicl.Cli
