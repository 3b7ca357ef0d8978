import Qubicl.Core.UpgradeLaws

/-!
# Legacy journals after an upgrade of the CLI

When a journal of a format 1 to 4 becomes a current transaction. Formats 1 and 2
go through `migrateLegacyTransaction`, which migrates the configuration and the
active entries alike. Formats 3 and 4 go through `upgradeTransaction`, which
migrates the configuration only; the entries then no longer match it unless the
migration leaves every computer as it is.
-/

namespace Qubicl.Core
open Foundation List

variable (z : Formats) (b : Build)

def LegacyJournal : TransactionDocument → Prop
  | .current t => (stateTransactionSchema z 4).Accepts t ∨ (stateTransactionSchema z 3).Accepts t
  | .legacy t => (legacyStateTransactionV2Schema z).Accepts t ∨ (legacyStateTransactionV1Schema z).Accepts t

structure JournalContents (α : Type) where
  id : String
  createdAt : String
  phase : TransactionPhase
  runtime : RuntimePlan
  computerIds : List String
  computers : List α
  active : List (ActiveTransactionEntry α)
  trashIds : List String
  secrets : Record ComputerSecret

def StateTransaction.contents (t : StateTransaction) : JournalContents ComputerConfig where
  id := t.id
  createdAt := t.createdAt
  phase := t.phase
  runtime := t.runtime
  computerIds := t.config.computers.map (·.id)
  computers := t.config.computers
  active := t.active
  trashIds := t.trash.map (·.metadata.id)
  secrets := t.secrets.computers

def LegacyStateTransaction.contents (t : LegacyStateTransaction) : JournalContents LegacyComputerConfig where
  id := t.id
  createdAt := t.createdAt
  phase := t.phase
  runtime := t.runtime
  computerIds := t.config.computers.map (·.id)
  computers := t.config.computers
  active := t.active
  trashIds := t.trash.map (·.metadata.id)
  secrets := t.secrets.computers

/- The upgrade of `old` is a current transaction about the same computers, whose
configuration and active entries are the migrations of the old ones. -/
structure UpgradeOf {α : Type} (migrate : α → Option ComputerConfig) (old : JournalContents α)
    (parsed : ParsedTransaction) : Prop where
  migrated : parsed.migrated=true
  valid : (stateTransactionSchema z transactionFormatVersion).Normal parsed.transaction
  id : parsed.transaction.id=old.id
  createdAt : parsed.transaction.createdAt=old.createdAt
  phase : parsed.transaction.phase=old.phase
  runtime : parsed.transaction.runtime=old.runtime
  computerIds : parsed.transaction.contents.computerIds=old.computerIds
  trashIds : parsed.transaction.contents.trashIds=old.trashIds
  secrets : parsed.transaction.contents.secrets=old.secrets
  computers : List.Forall₂ (fun before after => migrate before=some after)
    old.computers parsed.transaction.config.computers
  active : List.Forall₂ (fun before after => after.source=before.source ∧
    migrate before.metadata=some after.metadata) old.active parsed.transaction.active

def Survives (document : TransactionDocument) : Prop :=
  ∃ parsed, parseStateTransactionDocument z b document=some parsed ∧
    match document with
    | .current t =>
      (∃ old, (stateTransactionSchema z 4).parse t=some old ∧
        UpgradeOf z (migrateComputerV4 z) old.contents parsed) ∨
      (∃ old, (stateTransactionSchema z 3).parse t=some old ∧
        UpgradeOf z (migrateComputerV3 z) old.contents parsed)
    | .legacy t =>
      (∃ old, (legacyStateTransactionV2Schema z).parse t=some old ∧
        UpgradeOf z (migrateComputerV2 z b) old.contents parsed) ∨
      (∃ old, (legacyStateTransactionV1Schema z).parse t=some old ∧
        UpgradeOf z (migrateComputerV2 z b) old.contents parsed)

/- The computers of a format 3 or 4 journal have what their migration adds, and
the values of a format 1 or 2 journal pass the current validators. -/
def AlreadyCurrent : TransactionDocument → Prop
  | .current t => ∀ computer ∈ t.config.computers, computer.runtimeName=none ∧
      (t.version=4 → computer.controlProtocolVersion=some controlProtocolVersion ∧
        computer.network.isSome ∧ computer.browser.isSome)
  | .legacy t => ConfigResourcesValid t.config ∧
      ∀ entry ∈ t.trash, ResourcesValid entry.metadata.cpus entry.metadata.memory

variable {f : ComputerConfig → ComputerConfig} {migrateConfig : QubiclConfig → Option QubiclConfig}
  {parsed : ParsedTransaction} {x y : StateTransaction} {schema : Schema LegacyQubiclConfig}
  {migrate : ComputerConfig → Option ComputerConfig}

section Current
variable {z}

theorem stateTransactionSchema_eq_some {version : ℕ} :
    (stateTransactionSchema z version).parse x=some y ↔
      (x.version=version ∧ z.uuid x.id=true ∧ z.datetime x.createdAt=true ∧
        runtimeFields z x.runtime=true) ∧
      ∃ config secrets active trash, (configSchema z version).parse x.config=some config ∧
        (secretsSchema z version).parse x.secrets=some secrets ∧
        (activeTransactionEntrySchema z).array.parse x.active=some active ∧
        (trashTransactionEntrySchema z).array.parse x.trash=some trash ∧
        validateStateTransaction z ComputerConfig.id
          { x with config, secrets, active, trash : StateTransaction }.validation=[] ∧
        y = { x with config, secrets, active, trash } := by
  simp only [stateTransactionSchema,Option.bind_eq_bind,Option.bind_eq_some_iff,
    Option.ite_none_left_eq_some,Option.ite_none_right_eq_some,Option.some.injEq,List.isEmpty_iff,
    not_or,Bool.not_eq_true',Bool.not_eq_false,not_not,ne_eq]
  constructor
  · rintro ⟨hfie,config,hcon,secrets,hsec,active,hact,trash,htra,hval,rfl⟩
    exact ⟨hfie,config,secrets,active,trash,hcon,hsec,hact,htra,hval,rfl⟩
  · rintro ⟨hfie,config,secrets,active,trash,hcon,hsec,hact,htra,hval,rfl⟩
    exact ⟨hfie,config,hcon,secrets,hsec,active,hact,trash,htra,hval,rfl⟩

structure NormalTransaction (z : Formats) (version : ℕ) (t : StateTransaction) : Prop where
  fields : t.version=version ∧ z.uuid t.id=true ∧ z.datetime t.createdAt=true ∧
    runtimeFields z t.runtime=true
  config : (configSchema z version).Normal t.config
  secrets : (secretsSchema z version).Normal t.secrets
  active : (activeTransactionEntrySchema z).array.Normal t.active
  trash : (trashTransactionEntrySchema z).array.Normal t.trash
  shape : (t.validation.shape ComputerConfig.id).Valid z
  activeMatches : ActiveMatches ComputerConfig.id t.validation

theorem stateTransactionSchema_normal {version : ℕ} {t : StateTransaction} :
    (stateTransactionSchema z version).Normal t ↔ NormalTransaction z version t := by
  unfold Schema.Normal
  rw [stateTransactionSchema_eq_some]
  constructor
  · rintro ⟨hfie,config,secrets,active,trash,hcon,hsec,hact,htra,hval,heq⟩
    have hc : config=t.config := by rw [heq]
    have hs : secrets=t.secrets := by rw [heq]
    have ha : active=t.active := by rw [heq]
    have ht : trash=t.trash := by rw [heq]
    subst hc hs ha ht
    obtain ⟨hsha,hmat⟩ := (validateStateTransaction_eq_nil z ComputerConfig.id).1 hval
    exact ⟨hfie,hcon,hsec,hact,htra,hsha,hmat⟩
  · intro h
    exact ⟨h.fields,t.config,t.secrets,t.active,t.trash,h.config,h.secrets,h.active,h.trash,
      (validateStateTransaction_eq_nil z ComputerConfig.id).2 ⟨h.shape,h.activeMatches⟩,rfl⟩

theorem find?_map_id {α β : Type} {f : α → β} (idOf : α → String) (idOf' : β → String)
    (hid : ∀ x, idOf' (f x)=idOf x) (xs : List α) (key : String) :
    (xs.map f).find? (fun y => idOf' y=key)=(xs.find? fun x => idOf x=key).map f := by
  rw [find?_map]
  congr 1
  apply congrArg (fun p => xs.find? p)
  funext x
  simp [hid]

theorem mem_active_of_normal {version : ℕ} {t : StateTransaction} (h : NormalTransaction z version t)
    {computer : ComputerConfig} (hmem : computer ∈ t.config.computers) :
    ∃ entry ∈ t.active, entry.metadata=computer := by
  have hid : computer.id ∈ t.config.computers.map (·.id) := mem_map.2 ⟨computer,hmem,rfl⟩
  obtain ⟨entry,hent,heq⟩ := mem_map.1 ((h.shape.activeMatch computer.id).1 hid)
  refine ⟨entry,hent,?_⟩
  have hfin:=mem_of_find?_eq_some (h.activeMatches entry hent)
  exact inj_on_of_nodup_map (configSchema_nodup h.config) hfin hmem heq

/-- The branches for formats 3 and 4 succeed exactly when `f`, what the
migration does to a computer, leaves every computer as it is. -/
theorem upgradeTransaction_eq_some {version : ℕ} {t : StateTransaction} (h : NormalTransaction z version t)
    (hnor : ∀ computer ∈ t.config.computers, (computerConfigSchema z).Normal (f computer))
    (hide : ∀ computer, (f computer).identity=computer.identity) (hmig : migrateConfig t.config=some { t.config with
      version := stateFormatVersion, computers := t.config.computers.map f }) :
    upgradeTransaction z version migrateConfig t=some parsed ↔
      (∀ computer ∈ t.config.computers, f computer=computer) ∧
        parsed=⟨{ t with
          version := transactionFormatVersion
          config := { t.config with
            version := stateFormatVersion, computers := t.config.computers.map f }
          secrets := { t.secrets with version := stateFormatVersion } },true,some version⟩ := by
  have hcon:=configSchema_upgrade h.config hnor hide stateFormatVersion
  have hsec:=migrateSecrets_normal h.secrets
  have hsec' : (secretsSchema z stateFormatVersion).Normal
      { t.secrets with version := stateFormatVersion } := by
    simp only [migrateSecrets,Option.bind_eq_bind,Option.bind_eq_some_iff] at hsec
    obtain ⟨fields,-,hpar⟩ := hsec
    exact Schema.normal_of_parse hpar
  have hids : (t.config.computers.map f).map (·.id)=t.config.computers.map (·.id) := by
    rw [map_map]
    apply map_congr_left
    intro computer _
    exact congrArg Prod.fst (hide computer)
  generalize ht' : ({ t with
      version := transactionFormatVersion
      config := { t.config with
        version := stateFormatVersion, computers := t.config.computers.map f }
      secrets := { t.secrets with version := stateFormatVersion } } : StateTransaction)=t'
  -- the IDs, the sources and the plan are the same, so only the match can fail
  have hsha : t'.validation.shape ComputerConfig.id=t.validation.shape ComputerConfig.id := by
    subst ht'
    simp only [StateTransaction.validation,TransactionValidationValue.shape]
    rw [hids]
  have hmat : ActiveMatches ComputerConfig.id t'.validation ↔
      ∀ computer ∈ t.config.computers, f computer=computer := by
    subst ht'
    have hfin : ∀ entry ∈ t.active, (t.config.computers.map f).find?
        (fun computer => computer.id=entry.metadata.id)=some (f entry.metadata) := by
      intro entry hent
      rw [find?_map_id ComputerConfig.id ComputerConfig.id fun x => congrArg Prod.fst (hide x)]
      exact congrArg (Option.map f) (h.activeMatches entry hent)
    constructor
    · intro hm computer hmem
      obtain ⟨entry,hent,rfl⟩ := mem_active_of_normal h hmem
      exact Option.some.inj ((hfin entry hent).symm.trans (hm entry hent))
    · intro hfix entry hent
      have hmem:=mem_of_find?_eq_some (h.activeMatches entry hent)
      exact (hfin entry hent).trans (congrArg some (hfix _ hmem))
  have hnor' : (stateTransactionSchema z transactionFormatVersion).Normal t' ↔
      ∀ computer ∈ t.config.computers, f computer=computer := by
    rw [stateTransactionSchema_normal,← hmat]
    constructor
    · exact fun hn => hn.activeMatches
    · intro hm
      subst ht'
      exact ⟨⟨rfl,h.fields.2⟩,hcon,hsec',h.active,h.trash,hsha ▸ h.shape,hm⟩
  have hpar : ∀ y, (stateTransactionSchema z transactionFormatVersion).parse t'=some y → y=t' := by
    intro y hy
    obtain ⟨-,config,secrets,active,trash,hc,hs,ha,htr,-,rfl⟩ :=
      stateTransactionSchema_eq_some.1 hy
    subst ht'
    have hcon':=hcon
    have hact:=h.active
    have htra:=h.trash
    unfold Schema.Normal at hcon' hsec' hact htra
    rw [show transactionFormatVersion=stateFormatVersion from rfl] at hc hs
    rw [hcon'] at hc
    rw [hsec'] at hs
    rw [hact] at ha
    rw [htra] at htr
    cases hc
    cases hs
    cases ha
    cases htr
    rfl
  simp only [upgradeTransaction,hmig,hsec,Option.bind_eq_bind,Option.bind_some,
    Option.bind_eq_some_iff,Option.some.injEq,ht']
  constructor
  · rintro ⟨y,hy,rfl⟩
    have heq:=hpar y hy
    subst heq
    exact ⟨hnor'.1 hy,rfl⟩
  · rintro ⟨hfix,rfl⟩
    exact ⟨t',hnor'.2 hfix,rfl⟩

end Current

section Legacy
variable {z b}

structure NormalLegacyTransaction (z : Formats) (version : ℕ) (t : LegacyStateTransaction) : Prop where
  fields : z.uuid t.id=true ∧ z.datetime t.createdAt=true ∧ runtimeFields z t.runtime=true
  activeEntries : ∀ entry ∈ t.active, entry.source≠.staged ∧ legacyComputer z entry.metadata=true
  trashEntries : ∀ entry ∈ t.trash, entry.metadata.deletedAt.isSome ∧
    legacyMetadataV2Schema z entry.metadata=true
  secrets : (legacySecretsSchema z version).Normal t.secrets
  shape : (t.validation.shape LegacyComputerConfig.id).Valid z
  activeMatches : ActiveMatches LegacyComputerConfig.id t.validation

variable {version : ℕ}

theorem legacyStateTransactionSchema_spec {x t : LegacyStateTransaction}
    (h : (legacyStateTransactionSchema z version schema).parse x=some t) :
    x.version=version ∧ NormalLegacyTransaction z version t ∧
      ∃ config secrets, schema.parse x.config=some config ∧
        (legacySecretsSchema z version).parse x.secrets=some secrets ∧ t = { x with config, secrets } := by
  simp only [legacyStateTransactionSchema,Option.bind_eq_bind,Option.bind_eq_some_iff,
    Option.ite_none_left_eq_some,Option.ite_none_right_eq_some,Option.some.injEq,List.isEmpty_iff,
    not_or,Bool.not_eq_true',Bool.not_eq_false,not_not,ne_eq,all_eq_true] at h
  obtain ⟨⟨hver,hid,hdat,hrun,hact,htra⟩,config,hcon,secrets,hsec,hval,
    rfl⟩ := h
  obtain ⟨hsha,hmat⟩ := (validateStateTransaction_eq_nil z LegacyComputerConfig.id).1 hval
  refine ⟨hver,⟨⟨hid,hdat,hrun⟩,?_,?_,Schema.normal_of_parse hsec,hsha,hmat⟩,
    config,secrets,hcon,hsec,rfl⟩
  · intro entry hent
    simpa [legacyActiveEntry] using hact entry hent
  · intro entry hent
    simpa [legacyTrashEntry] using htra entry hent

def workstationTransaction (b : Build) (t : LegacyStateTransaction) (installationId : String) :
    StateTransaction where
  version := transactionFormatVersion
  id := t.id
  operation := currentOperation t.operation
  createdAt := t.createdAt
  phase := t.phase
  config := workstationConfig b t.config installationId
  secrets := { t.secrets with version := stateFormatVersion }
  active := t.active.map fun entry => ⟨entry.source,workstationComputer b entry.metadata⟩
  trash := t.trash.map fun entry => ⟨workstationMetadata b entry.metadata⟩
  runtime := t.runtime

def TrashResourcesValid (trash : List (TrashTransactionEntry LegacyMetadata)) : Prop :=
  ∀ entry ∈ trash, ResourcesValid entry.metadata.cpus entry.metadata.memory

variable {t : LegacyStateTransaction} {installationId : String}

section
variable (h : NormalLegacyTransaction z version t)
include h

theorem workstationTransaction_shape :
    (workstationTransaction b t installationId).validation.shape ComputerConfig.id =
      t.validation.shape LegacyComputerConfig.id := by
  obtain ⟨-,computers,-,heq⟩ := legacySecretsSchema_eq_some.1 h.secrets
  have hgat : t.secrets.gateway=none := by rw [heq]
  have hope : decide (currentOperation t.operation=.backupRestore)=false := by
    cases t.operation <;> rfl
  simp only [StateTransaction.validation,LegacyStateTransaction.validation,
    TransactionValidationValue.shape,workstationTransaction,workstationConfig,hgat,hope,
    map_map]
  rfl

theorem activeEntry_mem {entry : ActiveTransactionEntry LegacyComputerConfig}
    (hent : entry ∈ t.active) : entry.metadata ∈ t.config.computers :=
  mem_of_find?_eq_some (h.activeMatches entry hent)

theorem workstationTransaction_matches :
    ActiveMatches ComputerConfig.id (workstationTransaction b t installationId).validation := by
  intro entry hent
  obtain ⟨old,hold,rfl⟩ := mem_map.1 hent
  show (t.config.computers.map (workstationComputer b)).find? _=_
  rw [find?_map_id LegacyComputerConfig.id ComputerConfig.id fun _ => rfl]
  exact congrArg (Option.map _) (h.activeMatches old hold)

theorem workstationTransaction_normal
    (hcon : (configSchema z stateFormatVersion).Normal (workstationConfig b t.config installationId))
    (hres : ConfigResourcesValid t.config) (htra : TrashResourcesValid t.trash) :
    (stateTransactionSchema z transactionFormatVersion).Normal
      (workstationTransaction b t installationId) := by
  apply stateTransactionSchema_normal.2
  refine ⟨⟨rfl,h.fields⟩,hcon,?_,?_,?_,?_,workstationTransaction_matches h⟩
  · have hsec:=migrateLegacySecrets_normal h.secrets
    exact Schema.normal_of_parse hsec
  · apply Schema.array_normal.2
    intro entry hent
    obtain ⟨old,hold,rfl⟩ := mem_map.1 hent
    have hmig:=(migrateComputerV2_eq_some (b := b) (h.activeEntries old hold).2).2
      ⟨hres.2 _ (activeEntry_mem h hold),rfl⟩
    have hnor:=migrateComputerV2_normal hmig
    unfold Schema.Normal at hnor
    simp only [Schema.Normal,activeTransactionEntrySchema,hnor,Option.map_some]
  · apply Schema.array_normal.2
    intro entry hent
    obtain ⟨old,hold,rfl⟩ := mem_map.1 hent
    obtain ⟨hdel,hleg⟩ := h.trashEntries old hold
    have hmig:=(migrateMetadataV2_eq_some (b := b) hleg).2 ⟨htra old hold,rfl⟩
    have hnor : (metadataSchema z).Normal (workstationMetadata b old.metadata) := by
      simp only [migrateMetadataV2,Option.bind_eq_bind,Option.bind_eq_some_iff] at hmig
      obtain ⟨computer,-,hpar⟩ := hmig
      exact Schema.normal_of_parse hpar
    have hsom : (workstationMetadata b old.metadata).deletedAt.isSome := hdel
    unfold Schema.Normal at hnor
    simp only [Schema.Normal,trashTransactionEntrySchema,hsom,if_true,hnor,Option.map_some]
  · rw [workstationTransaction_shape h]
    exact h.shape

end

/-- The branches for formats 1 and 2 succeed exactly when every amount of CPUs
and memory in the journal is valid today. -/
theorem migrateLegacyTransaction_eq_some (h : NormalLegacyTransaction z version t)
    (hcon : ∀ migrated, migrateLegacyTransactionConfig z b t version=some migrated ↔
      ConfigResourcesValid t.config ∧ migrated=workstationConfig b t.config installationId) :
    migrateLegacyTransaction z b t version=some y ↔
      (ConfigResourcesValid t.config ∧ TrashResourcesValid t.trash) ∧
        y=workstationTransaction b t installationId := by
  have hact : ConfigResourcesValid t.config →
      t.active.mapM (migrateActiveEntry (migrateComputerV2 z b)) =
        some (workstationTransaction b t installationId).active := by
    intro hres
    apply mapM_eq_map
    intro entry hent
    rw [migrateActiveEntry,(migrateComputerV2_eq_some (h.activeEntries entry hent).2).2
      ⟨hres.2 _ (activeEntry_mem h hent),rfl⟩]
    rfl
  have htra : ∀ trash, t.trash.mapM (migrateTrashEntry z b)=some trash ↔
      TrashResourcesValid t.trash ∧ trash=(workstationTransaction b t installationId).trash := by
    have hone : ∀ entry ∈ t.trash, ∀ migrated, migrateTrashEntry z b entry=some migrated ↔
        ResourcesValid entry.metadata.cpus entry.metadata.memory ∧
          migrated=⟨workstationMetadata b entry.metadata⟩ := by
      intro entry hent migrated
      rw [migrateTrashEntry,Option.map_eq_some_iff]
      simp only [migrateMetadataV2_eq_some (h.trashEntries entry hent).2]
      constructor
      · rintro ⟨_,⟨hres,rfl⟩,rfl⟩
        exact ⟨hres,rfl⟩
      · rintro ⟨hres,rfl⟩
        exact ⟨_,⟨hres,rfl⟩,rfl⟩
    intro trash
    constructor
    · intro hmap
      have hres : TrashResourcesValid t.trash := by
        intro entry hent
        obtain ⟨i,hi,rfl⟩ := getElem_of_mem hent
        have hfor:=mapM_eq_some_forall₂.1 hmap
        exact ((hone _ hent _).1 (hfor.get hi (hfor.length_eq ▸ hi))).1
      refine ⟨hres,?_⟩
      have := mapM_eq_map fun entry hent => (hone entry hent _).2 ⟨hres entry hent,rfl⟩
      exact Option.some.inj (hmap.symm.trans this)
    · rintro ⟨hres,rfl⟩
      exact mapM_eq_map fun entry hent => (hone entry hent _).2 ⟨hres entry hent,rfl⟩
  have hnor : ConfigResourcesValid t.config → TrashResourcesValid t.trash →
      (stateTransactionSchema z transactionFormatVersion).parse
        (workstationTransaction b t installationId) =
          some (workstationTransaction b t installationId) := by
    intro hres htrashResources
    have hmig:=(hcon _).2 ⟨hres,rfl⟩
    have hconfigNormal : (configSchema z stateFormatVersion).Normal
        (workstationConfig b t.config installationId) := by
      unfold migrateLegacyTransactionConfig at hmig
      split at hmig
      · simp only [migrateConfigV1,migrateConfigV2,Option.bind_eq_bind,Option.bind_eq_some_iff]
          at hmig
        obtain ⟨_,-,_,-,_,-,_,-,hpar⟩ := hmig
        exact Schema.normal_of_parse hpar
      · simp only [migrateConfigV2,Option.bind_eq_bind,Option.bind_eq_some_iff] at hmig
        obtain ⟨_,-,_,-,hpar⟩ := hmig
        exact Schema.normal_of_parse hpar
    exact workstationTransaction_normal h hconfigNormal hres htrashResources
  simp only [migrateLegacyTransaction,Option.bind_eq_bind,Option.bind_eq_some_iff,
    migrateLegacySecrets_normal h.secrets,hcon,htra]
  constructor
  · rintro ⟨_,⟨hres,rfl⟩,_,hsec,active,hmap,_,⟨htrashResources,rfl⟩,hpar⟩
    cases hsec
    rw [hact hres] at hmap
    cases hmap
    have heq:=(hnor hres htrashResources).symm.trans hpar
    exact ⟨⟨hres,htrashResources⟩,(Option.some.inj heq).symm⟩
  · rintro ⟨⟨hres,htrashResources⟩,rfl⟩
    exact ⟨_,⟨hres,rfl⟩,_,rfl,_,hact hres,_,⟨htrashResources,rfl⟩,
      hnor hres htrashResources⟩

end Legacy

section Main
variable {z b}

theorem parsed_computers {xs ys : List ComputerConfig}
    (h : (computerConfigSchema z).array.parse xs=some ys) {P : ComputerConfig → Prop}
    (hP : ∀ x y, SameFields x y → (P x ↔ P y)) : (∀ x ∈ xs, P x) ↔ ∀ y ∈ ys, P y := by
  have hfor:=Schema.parse_array_forall₂.1 h
  clear h
  induction hfor with
  | nil => simp
  | cons hxy _ ih =>
    rw [forall_mem_cons,forall_mem_cons]
    exact and_congr (hP _ _ (computerConfigSchema_sameFields z hxy)) ih

variable {version : ℕ}

theorem upgradeOf_same {t : StateTransaction} (h : NormalTransaction z version t)
    (hmig : ∀ computer ∈ t.config.computers, migrate computer=some (f computer))
    (hfix : ∀ computer ∈ t.config.computers, f computer=computer) (hpad : parsed=⟨{ t with
      version := transactionFormatVersion
      config := { t.config with version := stateFormatVersion, computers := t.config.computers.map f }
      secrets := { t.secrets with version := stateFormatVersion } },true,some version⟩)
    (hnor : upgradeTransaction z version migrateConfig t=some parsed) : UpgradeOf z migrate t.contents parsed := by
  have hmap : t.config.computers.map f=t.config.computers := by
    rw [map_congr_left hfix,map_id']
  have hval : (stateTransactionSchema z transactionFormatVersion).Normal parsed.transaction := by
    simp only [upgradeTransaction,Option.bind_eq_bind,Option.bind_eq_some_iff] at hnor
    obtain ⟨_,-,_,-,transaction,hpar,heq⟩ := hnor
    cases heq
    exact Schema.normal_of_parse hpar
  subst hpad
  refine ⟨rfl,hval,rfl,rfl,rfl,rfl,?_,rfl,rfl,?_,?_⟩
  · show (t.config.computers.map f).map _=_
    rw [hmap]
    rfl
  · show List.Forall₂ _ t.config.computers (t.config.computers.map f)
    rw [hmap,List.forall₂_same]
    intro computer hmem
    rw [hmig computer hmem,hfix computer hmem]
  · show List.Forall₂ _ t.active t.active
    rw [List.forall₂_same]
    intro entry hent
    have hmem : entry.metadata ∈ t.config.computers :=
      mem_of_find?_eq_some (h.activeMatches entry hent)
    refine ⟨rfl,?_⟩
    rw [hmig _ hmem,hfix _ hmem]

theorem upgradeOf_workstation {t : LegacyStateTransaction} {installationId : String}
    {sourceVersion : Option ℕ} (h : NormalLegacyTransaction z version t)
    (hcom : ∀ computer ∈ t.config.computers, legacyComputer z computer=true)
    (hres : ConfigResourcesValid t.config)
    (hnor : (stateTransactionSchema z transactionFormatVersion).Normal
      (workstationTransaction b t installationId)) :
    UpgradeOf z (migrateComputerV2 z b) t.contents
      ⟨workstationTransaction b t installationId,true,sourceVersion⟩ := by
  have hmig : ∀ computer ∈ t.config.computers,
      migrateComputerV2 z b computer=some (workstationComputer b computer) := by
    intro computer hmem
    exact (migrateComputerV2_eq_some (hcom computer hmem)).2 ⟨hres.2 computer hmem,rfl⟩
  refine ⟨rfl,hnor,rfl,rfl,rfl,rfl,?_,?_,rfl,?_,?_⟩
  · show (t.config.computers.map _).map _=_
    rw [map_map]
    rfl
  · show (t.trash.map _).map _=_
    rw [map_map]
    rfl
  · show List.Forall₂ _ t.config.computers (t.config.computers.map _)
    rw [List.forall₂_map_right_iff,List.forall₂_same]
    exact hmig
  · show List.Forall₂ _ t.active (t.active.map _)
    rw [List.forall₂_map_right_iff,List.forall₂_same]
    intro entry hent
    exact ⟨rfl,hmig _ (activeEntry_mem h hent)⟩

theorem upgradeTransaction_survives {t : StateTransaction} (h : NormalTransaction z version t)
    (hf : ∀ computer, (computerConfigSchema z).Normal computer →
      migrate computer=some (f computer) ∧ (computerConfigSchema z).Normal (f computer))
    (hide : ∀ computer, (f computer).identity=computer.identity)
    (hcon : ∀ config, (configSchema z version).Normal config → migrateConfig config=some { config with
      version := stateFormatVersion, computers := config.computers.map f }) :
    (∃ parsed, upgradeTransaction z version migrateConfig t=some parsed ∧
      UpgradeOf z migrate t.contents parsed) ↔ ∀ computer ∈ t.config.computers, f computer=computer := by
  have hcom:=(configSchema_computers h.config).1
  have hiff : ∀ parsed, upgradeTransaction z version migrateConfig t=some parsed ↔ _ := fun _ =>
    upgradeTransaction_eq_some h (fun computer hmem => (hf computer (hcom computer hmem)).2)
      hide (hcon _ h.config)
  constructor
  · rintro ⟨parsed,hpar,-⟩
    exact ((hiff parsed).1 hpar).1
  · intro hfix
    have hpar:=(hiff _).2 ⟨hfix,rfl⟩
    exact ⟨_,hpar,upgradeOf_same h
      (fun computer hmem => (hf computer (hcom computer hmem)).1) hfix rfl hpar⟩

theorem stateTransactionSchema_version (h : (stateTransactionSchema z version).parse x=some y) : x.version=version :=
  (stateTransactionSchema_eq_some.1 h).1.1

theorem stateTransactionSchema_none (version : ℕ) (h : x.version≠version) :
    (stateTransactionSchema z version).parse x=none := by
  cases hy : (stateTransactionSchema z version).parse x with
  | none => rfl
  | some y => exact absurd (stateTransactionSchema_version hy) h

theorem legacyStateTransactionSchema_none {x : LegacyStateTransaction} (h : x.version≠version) :
    (legacyStateTransactionSchema z version schema).parse x=none := by
  cases hy : (legacyStateTransactionSchema z version schema).parse x with
  | none => rfl
  | some y => exact absurd (legacyStateTransactionSchema_spec hy).1 h

theorem transaction_computers {t old : StateTransaction}
    (h : (stateTransactionSchema z version).parse t=some old) :
    (computerConfigSchema z).array.parse t.config.computers=some old.config.computers := by
  obtain ⟨-,config,_,_,_,hcon,-,-,-,-,heq⟩ := stateTransactionSchema_eq_some.1 h
  obtain ⟨-,_,_,computers,-,-,hcom,-,hc⟩ := configSchema_eq_some.1 hcon
  rw [hcom,heq,hc]

theorem legacy_survives {t : LegacyStateTransaction} {installationId : String}
    (h : NormalLegacyTransaction z version t)
    (hcom : ∀ computer ∈ t.config.computers, legacyComputer z computer=true)
    (hcon : ∀ migrated, migrateLegacyTransactionConfig z b t version=some migrated ↔
      ConfigResourcesValid t.config ∧ migrated=workstationConfig b t.config installationId)
    (sourceVersion : Option ℕ) :
    (∃ parsed, (migrateLegacyTransaction z b t version).map
        (fun transaction => (⟨transaction,true,sourceVersion⟩ : ParsedTransaction))=some parsed ∧
      UpgradeOf z (migrateComputerV2 z b) t.contents parsed) ↔
    ConfigResourcesValid t.config ∧ TrashResourcesValid t.trash := by
  have hiff:=fun y => migrateLegacyTransaction_eq_some (y := y) h hcon
  constructor
  · rintro ⟨parsed,hpad,-⟩
    obtain ⟨y,hy,-⟩ := Option.map_eq_some_iff.1 hpad
    exact ((hiff y).1 hy).1
  · intro hres
    have hy:=(hiff _).2 ⟨hres,rfl⟩
    have hnor : (stateTransactionSchema z transactionFormatVersion).Normal
        (workstationTransaction b t installationId) := by
      simp only [migrateLegacyTransaction,Option.bind_eq_bind,Option.bind_eq_some_iff] at hy
      obtain ⟨_,-,_,-,_,-,_,-,hpar⟩ := hy
      exact Schema.normal_of_parse hpar
    exact ⟨_,by rw [hy]; rfl,upgradeOf_workstation h hcom hres.1 hnor⟩

end Main

/-- A legacy journal becomes an equivalent current transaction exactly when its
computers already have what the migration of format 3 or 4 gives them, or when
the current validators accept the resources of a journal of format 1 or 2. -/
theorem legacy_journal_survives_iff (document : TransactionDocument)
    (hlegacy : LegacyJournal z document) : Survives z b document ↔ AlreadyCurrent document := by
  cases document with
  | current t =>
    rcases hlegacy with h4 | h3
    · obtain ⟨old,hold⟩ := Option.isSome_iff_exists.1 h4
      have hver:=stateTransactionSchema_version hold
      have hcur:=stateTransactionSchema_none (z := z) transactionFormatVersion (x := t)
        (by rw [hver]; decide)
      have hoth:=stateTransactionSchema_none (z := z) 3 (x := t) (by rw [hver]; decide)
      have hsur:=upgradeTransaction_survives
        (stateTransactionSchema_normal.1 (Schema.normal_of_parse hold))
        (fun computer hc => ⟨migrateComputerV4_normal z hc,currentContract_normal z hc⟩)
        (fun _ => rfl) (fun _ hc => migrateConfigV4_normal hc)
      simp only [Survives,parseStateTransactionDocument,hcur,hold,hoth,Option.some.injEq,
        exists_eq_left',reduceCtorEq,false_and,exists_false,or_false,hsur,
        currentContract_eq_self,AlreadyCurrent,hver,forall_const]
      exact (parsed_computers (transaction_computers hold) fun x y hxy => by
        rw [hxy.runtimeName,hxy.controlProtocolVersion,hxy.network,hxy.browser]).symm
    · obtain ⟨old,hold⟩ := Option.isSome_iff_exists.1 h3
      have hver:=stateTransactionSchema_version hold
      have hcur:=stateTransactionSchema_none (z := z) transactionFormatVersion (x := t)
        (by rw [hver]; decide)
      have hoth:=stateTransactionSchema_none (z := z) 4 (x := t) (by rw [hver]; decide)
      have hsur:=upgradeTransaction_survives
        (stateTransactionSchema_normal.1 (Schema.normal_of_parse hold))
        (fun computer hc => ⟨migrateComputerV3_normal z hc,withoutRuntimeName_normal z hc⟩)
        (fun _ => rfl) (fun _ hc => migrateConfigV3_normal hc)
      have h34 : ¬ (3=4) := by decide
      simp only [Survives,parseStateTransactionDocument,hcur,hold,hoth,Option.some.injEq,
        exists_eq_left',reduceCtorEq,false_and,exists_false,false_or,hsur,
        withoutRuntimeName_eq_self,AlreadyCurrent,hver,h34,false_imp_iff,and_true]
      exact (parsed_computers (transaction_computers hold) fun x y hxy => by
        rw [hxy.runtimeName]).symm
  | legacy t =>
    rcases hlegacy with h2 | h1
    · obtain ⟨old,hold⟩ := Option.isSome_iff_exists.1 h2
      obtain ⟨hver,hnor,config,secrets,hcon,-,rfl⟩ := legacyStateTransactionSchema_spec hold
      have hoth : (legacyStateTransactionV1Schema z).parse t=none :=
        legacyStateTransactionSchema_none (by rw [hver]; decide)
      obtain ⟨hfie,rfl⟩ := Schema.parse_check.1 hcon
      simp only [Bool.and_eq_true] at hfie
      obtain ⟨installationId,hid,huui⟩ := (Option.any_eq_true _ _).1 hfie.1.2
      have hcom:=(legacyConfigFields_spec hfie.2).2.2.2.1
      have hsur:=legacy_survives hnor hcom
        (fun _ => migrateConfigV2_eq_some (b := b) hfie.2 hid huui) (some 2)
      simp only [Survives,parseStateTransactionDocument,hold,hoth,Option.some.injEq,
        exists_eq_left',reduceCtorEq,false_and,exists_false,or_false,hsur,AlreadyCurrent]
      exact Iff.rfl
    · obtain ⟨old,hold⟩ := Option.isSome_iff_exists.1 h1
      obtain ⟨hver,hnor,config,secrets,hcon,-,rfl⟩ := legacyStateTransactionSchema_spec hold
      have hoth : (legacyStateTransactionV2Schema z).parse t=none :=
        legacyStateTransactionSchema_none (by rw [hver]; decide)
      obtain ⟨⟨hone,hfie⟩,heq⟩ := Option.ite_none_right_eq_some.1 hcon
      cases heq
      have hcom:=(legacyConfigFields_spec hfie).2.2.2.1
      have hsur:=legacy_survives hnor hcom
        (fun _ => migrateConfigV1_eq_some (b := b) hone hfie hnor.fields.1) (some 1)
      simp only [Survives,parseStateTransactionDocument,hold,hoth,Option.some.injEq,
        exists_eq_left',reduceCtorEq,false_and,exists_false,false_or,hsur,AlreadyCurrent]
      exact Iff.rfl

def exampleId : String := "7d3c1d1e-5f0a-4b7e-9a57-0c8d1f6b2a11"
def exampleDate : String := "2025-01-01T00:00:00.000Z"
def exampleDigest : String := "0000000000000000000000000000000000000000000000000000000000000000"

def exampleFormats : Formats where
  uuid value := utf16Length value == 36
  datetime value := utf16Length value == 24
  httpsUrl value := value.startsWith "https://"
  isIP value := if value = "127.0.0.1" then 4 else 0
  exactHttpsOrigin _ := true
  sha256Text _ := "sha256:" ++ exampleDigest
  datetime_empty := by decide

def exampleImage : ImageIdentity where
  requested := "qubicl/workstation:dev"
  resolved := "qubicl/workstation:dev"
  contentId := none
  manifestSha256 := some exampleDigest

def exampleDefaults : ComputerDefaults where
  preset := .curated .workstation
  compatibility := .workstation
  image := exampleImage
  capabilityContractVersion := 1
  capabilities := capabilitiesForCompatibility .workstation
  cpus := 2
  memory := "4g"

def exampleBuild : Build where
  packagedDefaultComputerImage := "qubicl/computer:dev"
  workstation := exampleDefaults
  gatewayImage := ⟨"qubicl/gateway:dev","qubicl/gateway:dev",none,none⟩
  workstation_normal := by decide +kernel
  gateway_valid := by decide

def exampleSecret : ComputerSecret where
  token := "qubicl_0123456789abcdefghijklmnopqrstuvwxyz"
  internalKey := "0123456789abcdefghijklmnopqrstuvwxyz"
  clients := none
  brokerCredentials := none

def exampleSecrets (version : ℕ) : QubiclSecrets where
  version := version
  computers := ⟨[(exampleId,exampleSecret)],by decide⟩
  gateway := none

def examplePlan : RuntimePlan where
  ensureImages := false
  startGateway := false
  startIds := []
  removeIds := []
  verifyTokenIds := []

def exampleComputer : ComputerConfig := .bare exampleDefaults exampleId "main" exampleDate

def exampleConfig (version : ℕ) : QubiclConfig where
  version := version
  installationId := exampleId
  gateway := ⟨3211,exampleBuild.gatewayImage,some 10,none⟩
  defaults := exampleDefaults
  nextName := 2
  computers := [exampleComputer]

def exampleJournalV4 : StateTransaction where
  version := 4
  id := exampleId
  operation := .rename
  createdAt := exampleDate
  phase := .prepared
  config := exampleConfig 4
  secrets := exampleSecrets 4
  active := [⟨.active,exampleComputer⟩]
  trash := []
  runtime := examplePlan

/-- The format 4 journal of a computer without a network policy is lost. -/
theorem format_four_journal_lost : LegacyJournal exampleFormats (.current exampleJournalV4) ∧
    ¬ Survives exampleFormats exampleBuild (.current exampleJournalV4) := by
  have hnon : parseStateTransactionDocument exampleFormats exampleBuild (.current exampleJournalV4) =
      none := by decide +kernel
  refine ⟨.inl (by decide +kernel),?_⟩
  rintro ⟨parsed,hpar,-⟩
  rw [hnon] at hpar
  simp at hpar

def exampleLegacyComputer : LegacyComputerConfig :=
  ⟨exampleId,"main","qubicl/computer:dev",2,"4096m",exampleDate⟩

def exampleJournalV1 : LegacyStateTransaction where
  version := 1
  id := exampleId
  operation := .init
  createdAt := exampleDate
  phase := .prepared
  config := ⟨1,none,3211,2,⟨"qubicl/computer:dev",2,"4g"⟩,[exampleLegacyComputer]⟩
  secrets := exampleSecrets 1
  active := [⟨.create,exampleLegacyComputer⟩]
  trash := []
  runtime := examplePlan

theorem legacy_journal_survives_iff_init :
    Survives exampleFormats exampleBuild (.legacy exampleJournalV1) :=
  (legacy_journal_survives_iff exampleFormats exampleBuild (.legacy exampleJournalV1)
    (.inr (by decide))).2
    ⟨⟨by decide +kernel,by decide +kernel⟩,by decide⟩

end Qubicl.Core
