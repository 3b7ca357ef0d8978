import Qubicl.Cli.Transaction.Targets

/-!
# Transactions converge

However often the attempts at a transaction are cut, the first one that runs to its
end leaves the durable state of an attempt that was never cut.
-/

namespace Qubicl.Cli
open Foundation Core Durable

variable {F R : Type} [EmptyCollection F]

def rootsTarget (paths : StatePaths) (d : Disk F) : Option (Disk F) :=
  if (assertStateDirectories paths d).toBool then some d else none

def activeEntriesTarget (uid : ℕ) (entries : List (ActiveTransactionEntry ComputerConfig)) (d : Disk F) :
    Option (Disk F) :=
  (familyTarget (fun entry => entry.metadata.id)
    (fun entry => activeTarget uid entry.source entry.metadata) entries d.slots).map
      fun slots => { d with slots }

def stateFilesTarget (z : Formats) (uid : ℕ) (state : LoadedState) (d : Disk F) : Option (Disk F) :=
  (filesTarget z uid state d.files).map fun files => { d with files }

def trashEntriesTarget (uid : ℕ) (entries : List (TrashTransactionEntry ComputerMetadata)) (d : Disk F) :
    Option (Disk F) :=
  (familyTarget (fun entry => entry.metadata.id) (fun entry => trashTarget uid entry.metadata)
    entries d.slots).map fun slots => { d with slots }

def realizedDisk (z : Formats) (uid : ℕ) (state : LoadedState) (transaction : StateTransaction)
    (d : Disk F) : Option (Disk F) :=
  (rootsTarget state.paths d).bind fun d =>
    (activeEntriesTarget uid transaction.active d).bind fun d =>
      (stateFilesTarget z uid state d).bind fun d =>
        (some d).bind (trashEntriesTarget uid transaction.trash)

variable {d t : Disk F} {entries : List (ActiveTransactionEntry ComputerConfig)} {m : Durable R String Unit}

section Realize
variable {z : Formats} {host : Host F R} {state : LoadedState} {transaction : StateTransaction}

omit [EmptyCollection F] in
theorem keeps_disk {S : Type} {l : Lens (Disk F) S} {m : Durable S String Unit} {P : Disk F → Prop}
    (h : ∀ d t, P d → P (l.set t d)) :
    Keeps (fun w : World F R => P (World.diskLens.get w)) (zoom World.diskLens (zoom l m)) :=
  (keeps_zoom_of_frame h).get

omit [EmptyCollection F] in
theorem keeps_runtime {P : Disk F → Prop} :
    Keeps (fun w : World F R => P (World.diskLens.get w)) (zoom World.runtimeLens m) :=
  keeps_zoom_of_frame fun _ _ h => h

theorem activeEntriesTarget_eq_some {uid : ℕ} (hnod : (entries.map fun entry => entry.metadata.id).Nodup) :
    activeEntriesTarget uid entries d=some t ↔ t = { d with slots := t.slots } ∧
      (∀ entry ∈ entries, activeTarget uid entry.source entry.metadata (d.slots entry.metadata.id) =
        some (t.slots entry.metadata.id)) ∧
      ∀ id ∉ entries.map (fun entry => entry.metadata.id), t.slots id=d.slots id := by
  rw [activeEntriesTarget,Option.map_eq_some_iff]
  constructor
  · rintro ⟨slots,hslo,rfl⟩
    exact ⟨rfl,(familyTarget_eq_some hnod).1 hslo⟩
  · rintro ⟨hd,hslo⟩
    exact ⟨t.slots,(familyTarget_eq_some hnod).2 hslo,hd.symm⟩

theorem trashEntriesTarget_eq_some {uid : ℕ} {entries : List (TrashTransactionEntry ComputerMetadata)}
    (hnod : (entries.map fun entry => entry.metadata.id).Nodup) :
    trashEntriesTarget uid entries d=some t ↔ t = { d with slots := t.slots } ∧
      (∀ entry ∈ entries, trashTarget uid entry.metadata (d.slots entry.metadata.id) =
        some (t.slots entry.metadata.id)) ∧
      ∀ id ∉ entries.map (fun entry => entry.metadata.id), t.slots id=d.slots id := by
  rw [trashEntriesTarget,Option.map_eq_some_iff]
  constructor
  · rintro ⟨slots,hslo,rfl⟩
    exact ⟨rfl,(familyTarget_eq_some hnod).1 hslo⟩
  · rintro ⟨hd,hslo⟩
    exact ⟨t.slots,(familyTarget_eq_some hnod).2 hslo,hd.symm⟩

theorem keeps_activeEntries {uid : ℕ} {paths : StatePaths} {trash : List (TrashTransactionEntry ComputerMetadata)}
    (hnod : (entries.map fun entry => entry.metadata.id).Nodup)
    (hdis : ∀ entry ∈ entries, ∀ trashed ∈ trash, entry.metadata.id≠trashed.metadata.id) :
    Keeps (fun w : World F R => activeEntriesTarget uid entries (World.diskLens.get w) =
        some (World.diskLens.get w))
      (zoom World.diskLens (zoom Disk.slotsLens (ensureTrashDirectories uid paths trash))) := by
  apply Keeps.get (P := fun d : Disk F => activeEntriesTarget uid entries d=some d)
  have hslo : Keeps (fun slots : String → Slot F => ∀ entry ∈ entries,
      activeTarget uid entry.source entry.metadata (slots entry.metadata.id) =
        some (slots entry.metadata.id)) (ensureTrashDirectories uid paths trash) := by
    apply keeps_forEach
    intro trashed htra
    apply keeps_zoom_of_frame
    intro slots slot h entry hent
    have hne:=hdis entry hent trashed htra
    simpa [Lens.at,hne] using h entry hent
  intro d hd
  have hd':=((activeEntriesTarget_eq_some hnod).1 hd).2.1
  apply (hslo.get (l := Disk.slotsLens) d hd').mono
  · exact fun t ht => (activeEntriesTarget_eq_some hnod).2 ⟨rfl,ht,fun _ _ => rfl⟩
  · exact fun _ t ht => (activeEntriesTarget_eq_some hnod).2 ⟨rfl,ht,fun _ _ => rfl⟩
  · exact fun _ t ht => (activeEntriesTarget_eq_some hnod).2 ⟨rfl,ht,fun _ _ => rfl⟩

omit [EmptyCollection F] in
theorem rootsTarget_self {paths : StatePaths} :
    rootsTarget paths d=some d ↔ (assertStateDirectories paths d).toBool=true := by
  unfold rootsTarget
  split <;> simp_all

omit [EmptyCollection F] in
theorem rootsTarget_frame {paths : StatePaths} (hcom : t.computers=d.computers) (htra : t.trash=d.trash)
    (h : rootsTarget paths d=some d) : rootsTarget paths t=some t := by
  have hsam : assertStateDirectories paths t=assertStateDirectories paths d := by
    unfold assertStateDirectories
    rw [hcom,htra]
  rw [rootsTarget_self] at h ⊢
  rwa [hsam]

omit [EmptyCollection F] in
theorem stateFilesTarget_self {uid : ℕ} :
    stateFilesTarget z uid state d=some d ↔ filesTarget z uid state d.files=some d.files := by
  rw [stateFilesTarget,Option.map_eq_some_iff]
  constructor
  · rintro ⟨files,hfil,heq⟩
    have : files=d.files := congrArg Disk.files heq
    rwa [this] at hfil
  · exact fun h => ⟨d.files,h,rfl⟩

theorem realizeState_converges (hact : (transaction.active.map fun entry => entry.metadata.id).Nodup)
    (htra : (transaction.trash.map fun entry => entry.metadata.id).Nodup)
    (hdis : ∀ entry ∈ transaction.active, ∀ trashed ∈ transaction.trash,
      entry.metadata.id≠trashed.metadata.id)
    (hren : Returns (host.renderRuntime state)) :
    Converges World.diskLens.get (realizeState z host state transaction)
      (realizedDisk z host.uid state transaction) := by
  have hroo : Converges World.diskLens.get (zoom (World.diskLens (F := F) (R := R))
      (reads (assertStateDirectories (F := F) state.paths))) (rootsTarget state.paths) :=
    (headsFor_reads _).converges World.diskLens
  have hent : Converges World.diskLens.get (zoom (World.diskLens (F := F) (R := R)) (zoom Disk.slotsLens
      (ensureActiveDirectories host.uid state.paths transaction.active)))
      (activeEntriesTarget host.uid transaction.active) :=
    ((forEach_headsFor hact fun entry _ => ensureActiveDirectory_headsFor
      state.paths entry.source entry.metadata).zoom Disk.slotsLens).converges World.diskLens
  have hfil : Converges World.diskLens.get (zoom (World.diskLens (F := F) (R := R)) (zoom (Disk.filesLens (F := F))
      (saveState z host.uid state))) (stateFilesTarget z host.uid state) :=
    ((saveState_headsFor z host.uid state).zoom Disk.filesLens).converges World.diskLens
  have hred : Converges World.diskLens.get (zoom (World.runtimeLens (F := F))
      (host.renderRuntime state)) some :=
    converges_some (fun t => keeps_runtime (P := fun d => d=t)) hren.zoom
  have htrd : Converges World.diskLens.get (zoom (World.diskLens (F := F) (R := R)) (zoom Disk.slotsLens
      (ensureTrashDirectories host.uid state.paths transaction.trash)))
      (trashEntriesTarget host.uid transaction.trash) :=
    ((forEach_headsFor htra fun entry _ => ensureTrashDirectory_headsFor
      state.paths entry.metadata).zoom Disk.slotsLens).converges World.diskLens
  -- no later part of the program touches what an earlier one has brought to its end
  have hkeepRoots : ∀ {S : Type} {l : Lens (Disk F) S} {m : Durable S String Unit},
      (∀ t d, (l.set t d).computers=d.computers ∧ (l.set t d).trash=d.trash) →
      Keeps (fun w : World F R => rootsTarget state.paths (World.diskLens.get w) =
        some (World.diskLens.get w)) (zoom World.diskLens (zoom l m)) := fun h =>
    keeps_disk (P := fun d => rootsTarget state.paths d=some d)
      fun d t hd => rootsTarget_frame (h t d).1 (h t d).2 hd
  have hkeepRoots' : ∀ {m : Durable R String Unit}, Keeps (fun w : World F R =>
      rootsTarget state.paths (World.diskLens.get w)=some (World.diskLens.get w))
      (zoom World.runtimeLens m) := keeps_runtime (P := fun d => rootsTarget state.paths d=some d)
  have hkeepEntries : ∀ {m : Durable StateFiles String Unit}, Keeps (fun w : World F R =>
      activeEntriesTarget host.uid transaction.active (World.diskLens.get w)=some (World.diskLens.get w))
      (zoom World.diskLens (zoom Disk.filesLens m)) :=
    keeps_disk (P := fun d => activeEntriesTarget host.uid transaction.active d=some d)
      fun d t h => (activeEntriesTarget_eq_some hact).2
        ⟨rfl,((activeEntriesTarget_eq_some hact).1 h).2.1,fun _ _ => rfl⟩
  have hkeepEntries' : ∀ {m : Durable R String Unit}, Keeps (fun w : World F R =>
      activeEntriesTarget host.uid transaction.active (World.diskLens.get w)=some (World.diskLens.get w))
      (zoom World.runtimeLens m) :=
    keeps_runtime (P := fun d => activeEntriesTarget host.uid transaction.active d=some d)
  have hkeepFiles : ∀ {m : Durable (String → Slot F) String Unit}, Keeps (fun w : World F R =>
      stateFilesTarget z host.uid state (World.diskLens.get w)=some (World.diskLens.get w))
      (zoom World.diskLens (zoom Disk.slotsLens m)) :=
    keeps_disk (P := fun d => stateFilesTarget z host.uid state d=some d)
      fun d t h => by
        have hfil:=stateFilesTarget_self.1 h
        exact stateFilesTarget_self.2 hfil
  have hkeepFiles' : ∀ {m : Durable R String Unit}, Keeps (fun w : World F R =>
      stateFilesTarget z host.uid state (World.diskLens.get w)=some (World.diskLens.get w))
      (zoom World.runtimeLens m) := keeps_runtime (P := fun d => stateFilesTarget z host.uid state d=some d)
  have hafterRender:=hred.seq htrd
    (fun _ _ => wp_of_forall (fun _ => rfl) (fun _ _ => rfl) (fun _ _ => rfl))
  have hafterFiles:=hfil.seq hafterRender (hkeepFiles'.bind fun _ => hkeepFiles)
  have hafterEntries:=hent.seq hafterFiles (hkeepEntries.bind fun _ =>
    hkeepEntries'.bind fun _ => keeps_activeEntries hact hdis)
  exact hroo.seq hafterEntries ((hkeepRoots fun _ _ => ⟨rfl,rfl⟩).bind fun _ =>
    (hkeepRoots fun _ _ => ⟨rfl,rfl⟩).bind fun _ => hkeepRoots'.bind fun _ =>
      hkeepRoots fun _ _ => ⟨rfl,rfl⟩)

end Realize

/-- No call on containers throws. -/
structure TransactionRuntime.Succeeds (runtime : TransactionRuntime R) : Prop where
  reconcileContracts : ∀ state transaction, Returns (runtime.reconcileContracts state transaction)
  validate : Returns runtime.validate
  ensureImages : ∀ state, Returns (runtime.ensureImages state)
  startGateway : ∀ state binding replace, Returns (runtime.startGateway state binding replace)
  replaceStoppedGateway : ∀ state binding, Returns (runtime.replaceStoppedGateway state binding)
  verifyGateway : ∀ state skip, Returns (runtime.verifyGateway state skip)
  reconnect : ∀ state computer, Returns (runtime.reconnect state computer)
  waitForRemoval : ∀ state id, Returns (runtime.waitForRemoval state id)
  remove : ∀ state id, Returns (runtime.remove state id)
  removeReplacement : ∀ state computer binding, Returns (runtime.removeReplacement state computer binding)
  replaceStopped : ∀ state computer binding, Returns (runtime.replaceStopped state computer binding)
  start : ∀ state computer, Returns (runtime.start state computer)
  verifyToken : ∀ state id token, Returns (runtime.verifyToken state id token)

section Calls
variable {host : Host F R} {runtime : TransactionRuntime R} {state : LoadedState}
  {transaction : StateTransaction}

omit [EmptyCollection F] in
theorem completeRuntime_returns (hrun : runtime.Succeeds)
    (hren : ∀ state, Returns (host.renderRuntime state))
    (hses : ∀ id ∈ transaction.runtime.verifyTokenIds,
      ∃ secret, state.secrets.computers.get id=some secret) :
    Returns (completeRuntime host runtime state transaction) := by
  have hgat : Returns (gatewayWork runtime state transaction) :=
    (Returns.when ((hrun.startGateway _ _ _).bind fun _ => hrun.verifyGateway _ _)).bind
      fun _ => Returns.when (hrun.replaceStoppedGateway _ _)
  have hver : ∀ id ∈ transaction.runtime.verifyTokenIds,
      Returns (verifyTransactionToken runtime state id) := by
    intro id hid
    obtain ⟨secret,hsec⟩ := hses id hid
    unfold verifyTransactionToken
    rw [hsec]
    exact hrun.verifyToken _ _ _
  apply (Returns.when hrun.validate).bind
  intro _
  apply (Returns.when ((hrun.ensureImages _).bind fun _ => hren _)).bind
  intro _
  apply hgat.bind
  intro _
  apply (returns_forEach fun id _ => (hrun.waitForRemoval _ _).bind fun _ => hrun.remove _ _).bind
  intro _
  apply (returns_forEach fun id _ => hrun.reconnect _ _).bind
  intro _
  apply (returns_forEach fun id _ => (hrun.removeReplacement _ _ _).bind fun _ =>
    hrun.start _ _).bind
  intro _
  apply (returns_forEach fun id _ => hrun.replaceStopped _ _ _).bind
  intro _
  apply (returns_forEach fun id _ => Returns.when (hrun.start _ _)).bind
  exact fun _ => returns_forEach hver

end Calls

section Journal
variable {z : Formats} {b : Build} {uid : ℕ} {paths : StatePaths} {transaction : StateTransaction}

def ValidTransaction (z : Formats) (transaction : StateTransaction) : Prop :=
  (stateTransactionSchema z transactionFormatVersion).Normal transaction

theorem ValidTransaction.phase (h : ValidTransaction z transaction) (phase : TransactionPhase) :
    ValidTransaction z { transaction with phase } := by
  have hnor:=stateTransactionSchema_normal.1 h
  exact stateTransactionSchema_normal.2 ⟨hnor.fields,hnor.config,hnor.secrets,
    hnor.active,hnor.trash,hnor.shape,hnor.activeMatches⟩

theorem readPendingTransactionDocument_current (h : ValidTransaction z transaction) :
    readPendingTransactionDocument z b paths (.real uid 0o600 (.current transaction)) =
      .ok (some (⟨transaction,false,none⟩,.current transaction)) := by
  have hpar : parseStateTransactionDocument z b (.current transaction) =
      some ⟨transaction,false,none⟩ := by
    simp only [parseStateTransactionDocument,show (stateTransactionSchema z
      transactionFormatVersion).parse transaction=some transaction from h]
  simp only [readPendingTransactionDocument,hpar]
  rfl

theorem writeTransaction_valid (h : ValidTransaction z transaction) :
    writeTransaction z uid paths transaction=atomicWrite uid paths.journal (.current transaction) 0o600 := by
  simp only [writeTransaction,show (stateTransactionSchema z
    transactionFormatVersion).parse transaction=some transaction from h]

end Journal

def journalOf (uid : ℕ) (transaction : StateTransaction) : Place TransactionDocument :=
  .real uid 0o600 (.current transaction)

def Underway (z : Formats) (uid : ℕ) (paths : StatePaths) (transaction : StateTransaction)
    (goal d : Disk F) : Prop :=
  d.journal=journalOf uid transaction ∧ transaction.phase=.prepared ∧
    (realizedDisk z uid ⟨paths,transaction.config,transaction.secrets⟩ transaction d).map
      (fun t => { t with journal := .absent })=some goal

def RollingBack (uid : ℕ) (paths : StatePaths) (transaction : StateTransaction) (goal d : Disk F) : Prop :=
  ∃ entry ∈ transaction.active, entry.source=.staged ∧
    (∀ other ∈ transaction.active, other.source=.staged → other=entry) ∧
    d.journal=journalOf uid transaction ∧ transaction.phase=.prepared ∧ d.restoreStaging=true ∧
    stagingIncomplete paths entry.metadata.id (d.slots entry.metadata.id)=.ok true ∧
    goal = { (Disk.stagedLens entry.metadata.id).set .absent d with journal := .absent }

def CommittedTo (uid : ℕ) (transaction : StateTransaction) (goal d : Disk F) : Prop :=
  d = { goal with journal := journalOf uid { transaction with phase := .stateCommitted } }

/-- Where an attempt at a transaction that ends in `goal` can be cut. -/
def Attempting (z : Formats) (uid : ℕ) (paths : StatePaths) (transaction : StateTransaction)
    (goal d : Disk F) : Prop :=
  Underway z uid paths transaction goal d ∨ RollingBack uid paths transaction goal d ∨
    CommittedTo uid transaction goal d ∨ d=goal

section Attempts
variable {z : Formats} {b : Build} {host : Host F R} {paths : StatePaths} {options : TransactionOptions R}
  {transaction : StateTransaction} {goal : Disk F}

theorem ValidTransaction.ids (h : ValidTransaction z transaction) :
    (transaction.active.map fun entry => entry.metadata.id).Nodup ∧
      (transaction.trash.map fun entry => entry.metadata.id).Nodup ∧
      ∀ entry ∈ transaction.active, ∀ trashed ∈ transaction.trash,
        entry.metadata.id≠trashed.metadata.id := by
  have hsha:=(stateTransactionSchema_normal.1 h).shape
  refine ⟨hsha.activeNodup,hsha.trashNodup,?_⟩
  intro entry hent trashed htra heq
  have hfre:=hsha.trashFresh trashed.metadata.id (List.mem_map.2 ⟨trashed,htra,rfl⟩)
  apply hfre
  rw [← heq]
  exact (hsha.activeMatch _).2 (List.mem_map.2 ⟨entry,hent,rfl⟩)

omit [EmptyCollection F] in
theorem runtime_wp (h : Returns m) (w : World F R) :
    wp (zoom World.runtimeLens m) ⟨fun t => t.disk=w.disk,fun _ t => t.disk=w.disk,
      fun _ _ => False⟩ w := by
  apply (wp_zoom _ _ _ w).2
  exact (returns_iff.1 h w.runtime).mono (fun _ _ => rfl) (fun _ _ _ => rfl) (fun _ _ h => h)

theorem finishTransaction_attempts {state : LoadedState} (hrun : options.runtime.Succeeds)
    (hren : ∀ state, Returns (host.renderRuntime state))
    (hsec : ∀ id ∈ transaction.runtime.verifyTokenIds,
      ∃ secret, state.secrets.computers.get id=some secret)
    (hgoa : goal.journal=.absent) {w : World F R} (hw : CommittedTo host.uid transaction goal w.disk) :
    wp (finishTransaction host paths options state { transaction with phase := .stateCommitted })
      ⟨fun t => Attempting z host.uid paths transaction goal t.disk,
        fun _ t => Attempting z host.uid paths transaction goal t.disk ∧
          (options.includeRuntime.getD true=true → t.disk=goal),fun _ _ => False⟩ w := by
  apply (wp_ite _ _ _ w).2
  constructor
  · intro hski
    have hexc : options.includeRuntime.getD true=false := by
      simp only [Bool.and_eq_true,Bool.not_eq_true'] at hski
      exact hski.1
    refine (wp_pure () _ w).2 ⟨.inr (.inr (.inl hw)),?_⟩
    intro hinc
    rw [hexc] at hinc
    simp at hinc
  · intro _
    have hcom : Returns (completeRuntime host options.runtime state
        { transaction with phase := .stateCommitted }) := completeRuntime_returns hrun hren hsec
    apply (wp_bind _ _ _ w).2
    apply (runtime_wp hcom w).mono
    · intro t ht
      exact .inr (.inr (.inl (ht.trans hw)))
    · intro _ t ht
      have hdon : Disk.journalLens.set .absent t.disk=goal := by
        rw [ht,hw]
        show { goal with journal := .absent } = goal
        rw [← hgoa]
      apply (wp_zoom _ _ _ t).2
      apply (wp_zoom _ _ _ _).2
      have hjou : Disk.journalLens.get (World.diskLens.get t) =
          journalOf host.uid { transaction with phase := .stateCommitted } := by
        show t.disk.journal=_
        rw [ht,hw]
      rw [hjou]
      refine wp_of_ok rfl ?_ ⟨.inr (.inr (.inr hdon)),fun _ => hdon⟩
      intro place hpla
      rw [List.mem_singleton.1 hpla]
      exact .inr (.inr (.inr hdon))
    · exact fun _ _ h => h

theorem realizeState_journal (state : LoadedState) (place : Place TransactionDocument) :
    Keeps (fun t : World F R => t.disk.journal=place) (realizeState z host state transaction) := by
  have hpar : ∀ {S : Type} {l : Lens (Disk F) S} {m : Durable S String Unit},
      (∀ d t, (l.set t d).journal=d.journal) →
      Keeps (fun t : World F R => t.disk.journal=place) (zoom World.diskLens (zoom l m)) := fun h =>
    keeps_disk (P := fun d => d.journal=place) fun d t hd => (h d t).trans hd
  have hloo : Keeps (fun t : World F R => t.disk.journal=place)
      (zoom World.diskLens (reads (assertStateDirectories (F := F) state.paths))) :=
    Keeps.get (l := World.diskLens) (P := fun d : Disk F => d.journal=place) (keeps_reads _)
  apply hloo.bind
  intro _
  apply (hpar fun _ _ => rfl).bind
  intro _
  apply (hpar fun _ _ => rfl).bind
  intro _
  apply (keeps_runtime (P := fun d : Disk F => d.journal=place)).bind
  exact fun _ => hpar fun _ _ => rfl

theorem commitState_attempts (hval : ValidTransaction z transaction)
    (hren : ∀ state, Returns (host.renderRuntime state)) {w : World F R}
    (hw : Underway z host.uid paths transaction goal w.disk) :
    wp (commitState z host ⟨paths,transaction.config,transaction.secrets⟩ transaction)
      ⟨fun t => Attempting z host.uid paths transaction goal t.disk,
        fun _ t => CommittedTo host.uid transaction goal t.disk,fun _ _ => False⟩ w := by
  obtain ⟨hjou,hpha,htar⟩ := hw
  obtain ⟨hact,htra,hdis⟩ := hval.ids
  have hcon:=@realizeState_converges F R _ z host ⟨paths,transaction.config,transaction.secrets⟩
    transaction hact htra hdis (hren _) w
  have hkee : Keeps (fun t : World F R => t.disk.journal=w.disk.journal)
      (realizeState z host ⟨paths,transaction.config,transaction.secrets⟩ transaction) :=
    realizeState_journal _ _
  apply (wp_bind _ _ _ w).2
  apply (hcon.and (hkee w rfl)).mono
  · rintro t ⟨htar',hsam⟩
    left
    refine ⟨hsam.trans hjou,hpha,?_⟩
    have hred : realizedDisk z host.uid ⟨paths,transaction.config,transaction.secrets⟩
        transaction t.disk=_ := htar'
    rw [hred]
    exact htar
  · rintro - t ⟨hrea,hsam⟩
    have hred : realizedDisk z host.uid ⟨paths,transaction.config,transaction.secrets⟩
        transaction w.disk=some t.disk := hrea
    rw [hred] at htar
    have hgoa : { t.disk with journal := .absent } = goal := Option.some.inj htar
    rw [writeTransaction_valid (hval.phase .stateCommitted)]
    apply (wp_zoom _ _ _ t).2
    apply (wp_zoom _ _ _ _).2
    have hpla : Disk.journalLens.get (World.diskLens.get t)=journalOf host.uid transaction :=
      hsam.trans hjou
    rw [hpla]
    have hcom : CommittedTo host.uid transaction goal (Disk.journalLens.set
        (journalOf host.uid { transaction with phase := .stateCommitted }) t.disk) := by
      rw [CommittedTo,← hgoa]
      rfl
    refine wp_of_ok rfl ?_ hcom
    intro place hpla
    rw [List.mem_singleton.1 hpla]
    exact .inr (.inr (.inl hcom))
  · rintro _ t ⟨hnon,-⟩
    have hred : realizedDisk z host.uid ⟨paths,transaction.config,transaction.secrets⟩
        transaction w.disk=none := hnon
    rw [hred] at htar
    simp at htar

end Attempts

end Qubicl.Cli
