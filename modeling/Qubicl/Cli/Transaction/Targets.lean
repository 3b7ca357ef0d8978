import Qubicl.Cli.Transaction.Homes

/-!
# Where the transaction engine ends

For every part of the durable state, the state in which its program ends: the
program can be cut after any step, and from there it ends in the same state.
-/

namespace Qubicl.Cli
open Foundation Core Durable Option

variable {F R : Type} [EmptyCollection F]

def savedActive (uid : ℕ) (metadata : ComputerMetadata) (s : Slot F) : Option (Slot F) :=
  (savedDirectory uid metadata s.active).map fun place => { s with active := place }

def savedTrash (uid : ℕ) (metadata : ComputerMetadata) (s : Slot F) : Option (Slot F) :=
  (savedDirectory uid metadata s.trash).map fun place => { s with trash := place }

def markerRemoved (s : Slot F) : Option (Slot F) :=
  (insideTarget (fun c : ComputerDirectory F =>
    (removedPlace c.restoreReady).map fun restoreReady => { c with restoreReady }) s.active).map
      fun place => { s with active := place }

def stagingReady : Place (ComputerDirectory F) → Bool
  | .real _ _ c => c.restoreReady.isReal
  | _ => false

def activeTarget (uid : ℕ) (source : ActiveTransactionSource) (metadata : ComputerConfig) (s : Slot F) :
    Option (Slot F) :=
  let save:=savedActive uid { metadata with deletedAt := none }
  match s.active.found, s.trash.found, source with
  | some true, some false, .staged => (save s).bind markerRemoved
  | some true, some false, _ => save s
  | some false, some false, .create => save s
  | some false, some false, .staged =>
    if stagingReady s.staged then
      (save { s with active := s.staged, staged := .absent }).bind markerRemoved
    else none
  | some false, some true, .trash => save { s with active := s.trash, trash := .absent }
  | _, _, _ => none

def trashTarget (uid : ℕ) (metadata : ComputerMetadata) (s : Slot F) : Option (Slot F) :=
  match s.active.found, s.trash.found with
  | some true, some false =>
    (savedActive uid metadata s).map fun t => { t with active := .absent, trash := t.active }
  | some false, some true => savedTrash uid metadata s
  | _, _ => none

theorem savedActive_headsFor (uid : ℕ) (directory : String) (metadata : ComputerMetadata) :
    HeadsFor (zoom (Slot.activeLens (F := F)) (saveMetadataInDirectory uid directory metadata))
      (savedActive uid metadata) :=
  (saveMetadataInDirectory_headsFor uid directory metadata).zoom Slot.activeLens

theorem savedTrash_headsFor (uid : ℕ) (directory : String) (metadata : ComputerMetadata) :
    HeadsFor (zoom (Slot.trashLens (F := F)) (saveMetadataInDirectory uid directory metadata))
      (savedTrash uid metadata) :=
  (saveMetadataInDirectory_headsFor uid directory metadata).zoom Slot.trashLens

omit [EmptyCollection F] in
theorem markerRemoved_headsFor (directory marker : String) :
    HeadsFor (zoom (Slot.activeLens (F := F)) (inside directory
      (zoom ComputerDirectory.restoreReadyLens (durableRemove marker)))) markerRemoved :=
  (inside_headsFor directory ((durableRemove_headsFor marker).zoom
    ComputerDirectory.restoreReadyLens)).zoom Slot.activeLens

theorem written_eq_some {α : Type} {uid mode : ℕ} {contents : α} {p q : Place α}
    (h : written uid mode contents p=some q) : q=.real uid mode contents := by
  unfold written at h
  split at h
  · simp at h
  · exact (Option.some.inj h).symm

variable {metadata : ComputerMetadata} {uid : ℕ}

theorem savedContent_eq_some {c t : ComputerDirectory F} :
    savedContent uid metadata c=some t ↔
      ∃ home, savedHome uid c.home=some home ∧
        written uid 0o600 (.current metadata) c.metadata =
          some (.real uid 0o600 (.current metadata)) ∧
        t = { c with home, metadata := .real uid 0o600 (.current metadata) } := by
  simp only [savedContent,bind_eq_some_iff,map_eq_some_iff]
  constructor
  · rintro ⟨home,hhom,place,hpla,rfl⟩
    have := written_eq_some hpla
    subst this
    exact ⟨home,hhom,hpla,rfl⟩
  · rintro ⟨home,hhom,hpla,rfl⟩
    exact ⟨home,hhom,_,hpla,rfl⟩

variable {p q : Place (ComputerDirectory F)} {source : ActiveTransactionSource}

theorem savedDirectory_eq_some :
    savedDirectory uid metadata p=some q ↔
      ∃ c t, secured uid p=some c ∧ savedContent uid metadata c=some t ∧ q=.real uid 0o700 t := by
  simp only [savedDirectory,securedDirectory,bind_eq_some_iff,map_eq_some_iff]
  constructor
  · rintro ⟨_,⟨c,hc,rfl⟩,hq⟩
    obtain ⟨t,ht,rfl⟩ := map_eq_some_iff.1 hq
    exact ⟨c,t,hc,ht,rfl⟩
  · rintro ⟨c,t,hc,ht,rfl⟩
    exact ⟨_,⟨c,hc,rfl⟩,map_eq_some_iff.2 ⟨t,ht,rfl⟩⟩

theorem savedActive_eq_some {s t : Slot F} :
    savedActive uid metadata s=some t ↔
      ∃ place, savedDirectory uid metadata s.active=some place ∧ { s with active := place } = t :=
  map_eq_some_iff

theorem keeps_savedActive (directory marker : String) :
    Keeps (fun s : Slot F => savedActive uid metadata s=some s)
      (zoom Slot.activeLens (inside directory
        (zoom ComputerDirectory.restoreReadyLens (durableRemove marker)))) := by
  intro s hs
  obtain ⟨place,hsav,heq⟩ := savedActive_eq_some.1 hs
  have hpla : place=s.active := by rw [← heq]
  subst hpla
  obtain ⟨c,t,hsec,hcon,hact⟩ := savedDirectory_eq_some.1 hsav
  have hct : t=c := by simpa [hact,secured] using hsec
  subst hct
  obtain ⟨home,hhom,hmet,ht⟩ := savedContent_eq_some.1 hcon
  have hhomeEq : home=t.home := congrArg ComputerDirectory.home ht.symm
  have hmetadataEq : .real uid 0o600 (.current metadata)=t.metadata :=
    congrArg ComputerDirectory.metadata ht.symm
  have hkee : ∀ marker, savedActive uid metadata
      { s with active := .real uid 0o700 { t with restoreReady := marker } } =
        some { s with active := .real uid 0o700 { t with restoreReady := marker } } := by
    intro marker
    apply savedActive_eq_some.2
    have hsam : savedContent uid metadata { t with restoreReady := marker } =
        some { t with restoreReady := marker } :=
      savedContent_eq_some.2 ⟨home,hhom,hmet,by rw [hhomeEq,hmetadataEq]⟩
    exact ⟨_,savedDirectory_eq_some.2 ⟨_,_,by simp [secured],hsam,rfl⟩,rfl⟩
  apply (wp_zoom _ _ _ s).2
  show wp _ _ s.active
  rw [hact,wp_inside,wp_zoom]
  exact wp_of_forall hkee (fun _ => hkee) (fun _ => hkee)

theorem keeps_active {P : Place (ComputerDirectory F) → Prop} (directory : String)
    (metadata : ComputerMetadata) (hP : ∀ p q, Secures uid (DirectoryKept uid) p q → P p → P q) :
    Keeps (fun s : Slot F => P s.active ∧ s.trash=.absent)
      (zoom Slot.activeLens (saveMetadataInDirectory uid directory metadata)) := by
  rintro s ⟨hact,htra⟩
  apply (wp_zoom _ _ _ s).2
  exact (saveMetadataInDirectory_secures directory metadata s.active).mono
    (fun q hq => ⟨hP _ q hq hact,htra⟩) (fun _ q hq => ⟨hP _ q hq.1 hact,htra⟩)
    (fun _ q hq => ⟨hP _ q hq hact,htra⟩)

theorem Secures.orderly (h : Secures uid (DirectoryKept uid) p q) (hp : p=.absent ∨ p.isReal=true) :
    q=.absent ∨ q.isReal=true := by
  cases h with
  | same => exact hp
  | created => exact .inr rfl
  | real => exact .inr rfl

omit [EmptyCollection F] in
theorem keeps_active_marker (directory marker : String) :
    Keeps (fun s : Slot F => s.active.isReal=true ∧ s.trash=.absent)
      (zoom Slot.activeLens (inside directory
        (zoom ComputerDirectory.restoreReadyLens (durableRemove marker)))) := by
  rintro s ⟨hact,htra⟩
  apply (wp_zoom _ _ _ s).2
  cases h : s.active with
  | real owner mode c =>
    show wp _ _ s.active
    rw [h,wp_inside]
    exact wp_of_forall (fun _ => ⟨rfl,htra⟩) (fun _ _ => ⟨rfl,htra⟩) (fun _ _ => ⟨rfl,htra⟩)
  | absent => simp [h,Place.isReal] at hact
  | link => simp [h,Place.isReal] at hact
  | foreign => simp [h,Place.isReal] at hact

section ActiveTarget
variable {uid : ℕ} {metadata : ComputerConfig} {s : Slot F}

theorem activeTarget_real (hact : s.active.Found true) (htra : s.trash.Found false) (hsou : source≠.staged) :
    activeTarget uid source metadata s=savedActive uid { metadata with deletedAt := none } s := by
  unfold activeTarget
  rw [Place.found_eq_some.2 hact,Place.found_eq_some.2 htra]
  cases source <;> simp_all

theorem activeTarget_staged (hact : s.active.Found true) (htra : s.trash.Found false) :
    activeTarget uid .staged metadata s =
      (savedActive uid { metadata with deletedAt := none } s).bind markerRemoved := by
  unfold activeTarget
  rw [Place.found_eq_some.2 hact,Place.found_eq_some.2 htra]

theorem activeTarget_create (hactive : s.active=.absent ∨ s.active.isReal=true)
    (htra : s.trash=.absent) :
    activeTarget uid .create metadata s=savedActive uid { metadata with deletedAt := none } s := by
  rcases hactive with hactive | hactive
  · simp only [activeTarget,hactive,htra,Place.found]
  · exact activeTarget_real hactive htra (by simp)

theorem saveActive_wp (active : String) (hact : s.active.isReal=true) (htra : s.trash=.absent) (hsou : source≠.staged) :
    wp (zoom Slot.activeLens (saveMetadataInDirectory uid active { metadata with deletedAt := none }))
      ⟨fun t => activeTarget uid source metadata t=activeTarget uid source metadata s,
        fun _ t => activeTarget uid source metadata s=some t,
        fun _ _ => activeTarget uid source metadata s=none⟩ s :=
  (savedActive_headsFor uid active _).wp_of_eq
    (keeps_active active _ fun _ _ h hp => h.isReal hp)
    (fun _ ht => activeTarget_real ht.1 ht.2 hsou) ⟨hact,htra⟩

theorem saveStaged_wp (active : String) (hact : s.active.isReal=true) (htra : s.trash=.absent) :
    wp (zoom Slot.activeLens (saveMetadataInDirectory uid active { metadata with deletedAt := none })
        >>= fun _ => zoom Slot.activeLens (inside active (zoom ComputerDirectory.restoreReadyLens
          (durableRemove (join active ".qubicl-restore-ready")))))
      ⟨fun t => activeTarget uid .staged metadata t=activeTarget uid .staged metadata s,
        fun _ t => activeTarget uid .staged metadata s=some t,
        fun _ _ => activeTarget uid .staged metadata s=none⟩ s :=
  ((savedActive_headsFor uid active _).seq (markerRemoved_headsFor active _)
    (keeps_savedActive active _)).wp_of_eq
    ((keeps_active active _ fun _ _ h hp => h.isReal hp).bind fun _ => keeps_active_marker active _)
    (fun _ ht => activeTarget_staged ht.1 ht.2) ⟨hact,htra⟩

omit [EmptyCollection F] in
theorem ensureStagedDirectory_wp (paths : StatePaths) (id : String) (hact : s.active=.absent) :
    wp (ensureStagedDirectory paths id)
      ⟨fun t => stagingReady s.staged=true ∧ s.staged.isReal=true ∧
          t = { s with active := s.staged, staged := .absent },
        fun _ t => stagingReady s.staged=true ∧ s.staged.isReal=true ∧
          t = { s with active := s.staged, staged := .absent },
        fun _ _ => stagingReady s.staged=false⟩ s := by
  apply wp_realDirectoryExists
  · intro _ hnon
    cases h : s.staged <;> simp_all [stagingReady,Place.found]
  intro stagedExists hsta
  rw [wp_bind,wp_reads]
  cases stagedExists with
  | false =>
    have habs : s.staged=.absent := hsta
    exact (wp_fail _ _ s).2 (by rw [habs]; rfl)
  | true =>
    simp only [if_true]
    have hrel : s.staged.isReal=true := hsta
    cases h : s.staged with
    | absent => simp [h,Place.isReal] at hrel
    | link => simp [h,Place.isReal] at hrel
    | foreign => simp [h,Place.isReal] at hrel
    | real owner mode c =>
      simp only [restoreReadyExists,h,realFileExists,existsAs]
      cases hrea : c.restoreReady with
      | absent => exact (wp_fail _ _ s).2 (by simp [stagingReady,hrea,Place.isReal])
      | link => simp [stagingReady,hrea,Place.isReal]
      | foreign => simp [stagingReady,hrea,Place.isReal]
      | real o m u =>
        have hr : stagingReady (.real owner mode c)=true := by
          simp [stagingReady,hrea,Place.isReal]
        have hm : Slot.stagedLens.set .absent (Slot.activeLens.set (Slot.stagedLens.get s) s) =
            { s with active := .real owner mode c, staged := .absent } := by
          rw [← h]
          rfl
        exact wp_durableRename hact ⟨hr,rfl,hm⟩ ⟨hr,rfl,hm⟩

theorem ensureActiveDirectory_headsFor (paths : StatePaths) (source : ActiveTransactionSource)
    (metadata : ComputerConfig) :
    HeadsFor (ensureActiveDirectory (F := F) uid paths source metadata) (activeTarget uid source metadata) := by
  intro s
  apply wp_realDirectoryExists
  · intro _ hnon
    simp [activeTarget,hnon]
  intro activeExists hact
  apply wp_realDirectoryExists
  · intro _ hnon
    simp [activeTarget,hnon]
  intro trashExists htra
  have hfai : ∀ e : String, activeTarget uid source metadata s=none →
      wp (fail e : Durable (Slot F) String Unit)
        ⟨fun t => activeTarget uid source metadata t=activeTarget uid source metadata s,
          fun _ t => activeTarget uid source metadata s=some t,
          fun _ _ => activeTarget uid source metadata s=none⟩ s :=
    fun e h => (wp_fail e _ s).2 h
  have ha:=Place.found_eq_some.2 hact
  have ht:=Place.found_eq_some.2 htra
  cases activeExists with
  | true =>
    cases trashExists with
    | true => exact hfai _ (by simp [activeTarget,ha,ht])
    | false =>
      cases source with
      | create => exact saveActive_wp _ hact htra (by simp)
      | active => exact saveActive_wp _ hact htra (by simp)
      | trash => exact saveActive_wp _ hact htra (by simp)
      | staged => exact saveStaged_wp _ hact htra
  | false =>
    cases trashExists with
    | true =>
      cases source with
      | create => exact hfai _ (by simp [activeTarget,ha,ht])
      | active => exact hfai _ (by simp [activeTarget,ha,ht])
      | staged => exact hfai _ (by simp [activeTarget,ha,ht])
      | trash =>
        have hmov : activeTarget uid .trash metadata { s with active := s.trash, trash := .absent } =
            activeTarget uid .trash metadata s := by
          have habs : (.absent : Place (ComputerDirectory F)).Found false := rfl
          rw [activeTarget_real (s := { s with active := s.trash, trash := .absent }) htra habs (by simp)]
          simp only [activeTarget,ha,ht]
        apply (wp_bind _ _ _ s).2
        refine wp_durableRename ?_ hmov ?_
        · exact hact
        · simp only [← hmov]
          exact saveActive_wp _ htra rfl (by simp)
    | false =>
      cases source with
      | create =>
        exact (savedActive_headsFor uid (paths.active metadata.id) _).wp_of_eq
          (keeps_active (P := fun p => p=.absent ∨ p.isReal=true) _ _ fun _ _ h hp => h.orderly hp)
          (fun _ h => activeTarget_create h.1 h.2) ⟨.inl hact,htra⟩
      | active => exact hfai _ (by simp [activeTarget,ha,ht])
      | trash => exact hfai _ (by simp [activeTarget,ha,ht])
      | staged =>
        apply (wp_bind _ _ _ s).2
        have hmov : stagingReady s.staged=true → s.staged.isReal=true →
            activeTarget uid .staged metadata { s with active := s.staged, staged := .absent } =
              activeTarget uid .staged metadata s := by
          intro hrea hrel
          rw [activeTarget_staged (s := { s with active := s.staged, staged := .absent }) hrel htra]
          simp only [activeTarget,ha,ht,hrea,if_true]
        apply (ensureStagedDirectory_wp paths metadata.id hact).mono
        · rintro t ⟨hrea,hrel,rfl⟩
          exact hmov hrea hrel
        · rintro - t ⟨hrea,hrel,rfl⟩
          rw [← hmov hrea hrel]
          exact saveStaged_wp _ hrel htra
        · intro _ _ hnon
          show activeTarget uid .staged metadata s=none
          simp [activeTarget,ha,ht,hnon]

theorem trashTarget_active {metadata : ComputerMetadata} (hact : s.active.Found true)
    (htra : s.trash.Found false) : trashTarget uid metadata s =
      (savedActive uid metadata s).map fun t => { t with active := .absent, trash := t.active } := by
  unfold trashTarget
  rw [Place.found_eq_some.2 hact,Place.found_eq_some.2 htra]

theorem trashTarget_trash {metadata : ComputerMetadata} (hact : s.active.Found false)
    (htra : s.trash.Found true) : trashTarget uid metadata s=savedTrash uid metadata s := by
  unfold trashTarget
  rw [Place.found_eq_some.2 hact,Place.found_eq_some.2 htra]

theorem keeps_trash (directory : String) (metadata : ComputerMetadata) :
    Keeps (fun s : Slot F => s.active.Found false ∧ s.trash.Found true)
      (zoom Slot.trashLens (saveMetadataInDirectory uid directory metadata)) := by
  rintro s ⟨hact,htra⟩
  apply (wp_zoom _ _ _ s).2
  exact (saveMetadataInDirectory_secures directory metadata s.trash).mono
    (fun q hq => ⟨hact,hq.isReal htra⟩) (fun _ q hq => ⟨hact,hq.1.isReal htra⟩)
    (fun _ q hq => ⟨hact,hq.isReal htra⟩)

theorem ensureTrashDirectory_headsFor (paths : StatePaths) (metadata : ComputerMetadata) :
    HeadsFor (ensureTrashDirectory (F := F) uid paths metadata) (trashTarget uid metadata) := by
  intro s
  apply wp_realDirectoryExists
  · intro _ hnon
    simp [trashTarget,hnon]
  intro activeExists hact
  apply wp_realDirectoryExists
  · intro _ hnon
    simp [trashTarget,hnon]
  intro trashExists htra
  have ha:=Place.found_eq_some.2 hact
  have ht:=Place.found_eq_some.2 htra
  cases activeExists with
  | true =>
    cases trashExists with
    | true => exact (wp_fail _ _ s).2 (by simp [trashTarget,ha,ht])
    | false =>
      have htar : trashTarget uid metadata s=_ := trashTarget_active hact htra
      apply (wp_bind _ _ _ s).2
      apply ((savedActive_headsFor uid (paths.active metadata.id) metadata s).and
        (keeps_active (P := fun p => p.isReal=true) _ _ (fun _ _ h hp => h.isReal hp) s
          ⟨hact,htra⟩)).mono
      · rintro t ⟨hsav,hrea,habs⟩
        show trashTarget uid metadata t=trashTarget uid metadata s
        rw [htar,trashTarget_active hrea habs,hsav]
      · rintro - t ⟨hsav,hrea,habs⟩
        have hide:=(savedActive_headsFor uid (paths.active metadata.id) metadata).idem hsav
        obtain ⟨place,hpla,heq⟩ := savedActive_eq_some.1 hide
        have hp : place=t.active := by rw [← heq]
        subst hp
        have hmov : trashTarget uid metadata { t with active := .absent, trash := t.active } =
            some { t with active := .absent, trash := t.active } := by
          have hnon : (.absent : Place (ComputerDirectory F)).Found false := rfl
          rw [trashTarget_trash (s := { t with active := .absent, trash := t.active }) hnon hrea]
          simp only [savedTrash,hpla,map_some]
        have hend : trashTarget uid metadata s=some { t with active := .absent, trash := t.active } := by
          rw [htar,hsav]
          rfl
        refine wp_durableRename ?_ ?_ ?_
        · exact habs
        · exact hmov.trans hend.symm
        · exact hend
      · rintro _ t ⟨hnon,-⟩
        show trashTarget uid metadata s=none
        rw [htar,hnon]
        rfl
  | false =>
    cases trashExists with
    | false => exact (wp_fail _ _ s).2 (by simp [trashTarget,ha,ht])
    | true =>
      exact (savedTrash_headsFor uid (paths.trashed metadata.id) metadata).wp_of_eq
        (keeps_trash _ _) (fun _ h => trashTarget_trash h.1 h.2) ⟨hact,htra⟩

end ActiveTarget

/- Config and secrets belong together, which `saveState` checks first. -/
def stateMatches (z : Formats) (state : LoadedState) : Bool :=
  (assertStateComputerIdsMatch (state.config.computers.map (·.id)) state.secrets.computers.keys).toBool &&
    (assertGatewayExposureTlsSecretMatches z state.config.gateway.exposure
      (state.secrets.gateway.map (·.tls))).toBool

def writtenFiles (uid : ℕ) (state : LoadedState) (files : StateFiles) : Option StateFiles :=
  (written uid 0o600 (.current state.config) files.config).bind fun config =>
    (written uid 0o600 state.secrets files.secrets).map fun secrets => { config, secrets }

def filesTarget (z : Formats) (uid : ℕ) (state : LoadedState) (files : StateFiles) : Option StateFiles :=
  if stateMatches z state then writtenFiles uid state files else none

theorem chmod_headsFor {α : Type} (mode : ℕ) :
    HeadsFor (write (Place.chmod mode) : Durable (Place α) String Unit) (fun p => some (p.chmod mode)) := by
  apply headsFor_of_step
  · intro p t h
    cases h
    refine ⟨?_,.inl rfl⟩
    cases p <;> rfl
  · intro p h
    simp at h

/- The `chmod` finds the mode that it sets. -/
theorem writtenPrivate_headsFor {α : Type} (uid : ℕ) (path : String) (contents : α) :
    HeadsFor (atomicWrite uid path contents 0o600 >>= fun _ => write (Place.chmod 0o600))
      (written uid 0o600 contents) := by
  have hkee : Keeps (fun p : Place α => written uid 0o600 contents p=some p)
      (write (Place.chmod 0o600) : Durable (Place α) String Unit) := by
    apply keeps_write
    intro p h
    have hp:=written_eq_some h
    rw [hp] at h ⊢
    exact h
  apply ((atomicWrite_headsFor uid path contents 0o600).seq (chmod_headsFor 0o600) hkee).congr
  intro p
  cases h : written uid 0o600 contents p with
  | none => rfl
  | some q =>
    rw [written_eq_some h]
    rfl

theorem writtenFiles_headsFor (uid : ℕ) (state : LoadedState) :
    HeadsFor (zoom StateFiles.configLens
        (atomicWrite uid state.paths.config (.current state.config) 0o600) >>= fun _ =>
      zoom StateFiles.secretsLens (atomicWrite uid state.paths.secrets state.secrets 0o600 >>= fun _ =>
        write (Place.chmod 0o600))) (writtenFiles uid state) := by
  have hkee : ∀ {m : Durable (Place QubiclSecrets) String Unit},
      Keeps (fun files => (written uid 0o600 (ConfigDocument.current state.config)
        (StateFiles.configLens.get files)).map (fun t => StateFiles.configLens.set t files)=some files)
        (zoom StateFiles.secretsLens m) := by
    intro m
    apply keeps_zoom_of_frame
    intro files place h
    obtain ⟨config,hcon,heq⟩ := map_eq_some_iff.1 h
    have : config=files.config := congrArg StateFiles.config heq
    subst this
    exact map_eq_some_iff.2 ⟨_,hcon,rfl⟩
  apply (((atomicWrite_headsFor uid _ _ 0o600).zoom StateFiles.configLens).seq
    ((writtenPrivate_headsFor uid _ _).zoom StateFiles.secretsLens) hkee).congr
  intro files
  cases h : written uid 0o600 (ConfigDocument.current state.config) files.config <;>
    simp [writtenFiles,StateFiles.configLens,StateFiles.secretsLens,h]

theorem saveState_headsFor (z : Formats) (uid : ℕ) (state : LoadedState) :
    HeadsFor (saveState z uid state) (filesTarget z uid state) := by
  intro files
  have hids:=headsFor_reads (E := String) (S := StateFiles) fun _ =>
    assertStateComputerIdsMatch (state.config.computers.map (·.id)) state.secrets.computers.keys
  have htls:=headsFor_reads (E := String) (S := StateFiles) fun _ =>
    assertGatewayExposureTlsSecretMatches z state.config.gateway.exposure (state.secrets.gateway.map (·.tls))
  have hcon : ∀ {p : Bool} {m : Durable StateFiles String Unit},
      Keeps (fun s : StateFiles => (if p then some s else none)=some s) m := by
    intro p m s h
    cases p with
    | false => simp at h
    | true => exact wp_of_forall (fun _ => rfl) (fun _ _ => rfl) (fun _ _ => rfl)
  have hsav:=(hids.seq (htls.seq (writtenFiles_headsFor uid state) hcon) hcon).congr
    (g := filesTarget z uid state) (by
      intro files
      cases h : (assertStateComputerIdsMatch (state.config.computers.map (·.id))
          state.secrets.computers.keys).toBool <;>
        cases h' : (assertGatewayExposureTlsSecretMatches z state.config.gateway.exposure
          (state.secrets.gateway.map (·.tls))).toBool <;>
        simp [filesTarget,stateMatches,h,h'])
  exact hsav files

end Qubicl.Cli
