import Qubicl.Core.Upgrade

/-!
# What the upgrades do

On values in normal form every migration is a plain function: formats 3 and 4
always succeed, formats 1 and 2 exactly when the current validators accept the
CPUs and the memory of the legacy document.
-/

namespace Qubicl.Core
open Foundation List

variable (z : Formats) (b : Build)

variable {x y migrated : ComputerConfig} {image : String} {secrets : QubiclSecrets}

section Computers

theorem contractSchema_spec {x y : ComputerDefaults} (h : contractSchema.parse x=some y) :
    contractFields x=true ∧ ∃ memory, normalizeMemory x.memory=some memory ∧
      y = { x with memory } := by
  obtain ⟨hfie,hmap⟩ := Option.ite_none_right_eq_some.1 h
  obtain ⟨memory,hmem,rfl⟩ := Option.map_eq_some_iff.1 hmap
  exact ⟨hfie,memory,hmem,rfl⟩

theorem computerConfigSchema_eq_some :
    (computerConfigSchema z).parse x=some y ↔ computerFields z x=true ∧
      ∃ contract network skillPolicy, contractSchema.parse x.toComputerDefaults=some contract ∧
        (networkPolicySchema z).optional.parse x.network=some network ∧
        skillPolicySchema.optional.parse x.skillPolicy=some skillPolicy ∧
        validateComputer { x with toComputerDefaults := contract, network, skillPolicy } = [] ∧
        y = { x with toComputerDefaults := contract, network, skillPolicy } := by
  simp only [computerConfigSchema,Option.bind_eq_bind,Option.bind_eq_some_iff,
    Option.ite_none_left_eq_some,Option.ite_none_right_eq_some,Option.some.injEq,Bool.not_eq_true',
    Bool.not_eq_false,List.isEmpty_iff]
  constructor
  · rintro ⟨hfie,contract,hcon,network,hnet,skillPolicy,hski,hval,rfl⟩
    exact ⟨hfie,contract,network,skillPolicy,hcon,hnet,hski,hval,rfl⟩
  · rintro ⟨hfie,contract,network,skillPolicy,hcon,hnet,hski,hval,rfl⟩
    exact ⟨hfie,contract,hcon,network,hnet,skillPolicy,hski,hval,rfl⟩

/- The schema does not touch the fields that the migrations are about. -/
structure SameFields (x y : ComputerConfig) : Prop where
  id : y.id=x.id
  name : y.name=x.name
  runtimeName : y.runtimeName=x.runtimeName
  controlProtocolVersion : y.controlProtocolVersion=x.controlProtocolVersion
  network : y.network.isSome=x.network.isSome
  browser : y.browser=x.browser

theorem computerConfigSchema_sameFields (h : (computerConfigSchema z).parse x=some y) : SameFields x y := by
  obtain ⟨-,contract,network,skillPolicy,-,hnet,-,-,rfl⟩ :=
    (computerConfigSchema_eq_some z).1 h
  refine ⟨rfl,rfl,rfl,rfl,?_,rfl⟩
  cases hx : x.network with
  | none =>
    rw [hx] at hnet
    cases hnet
    rfl
  | some policy =>
    rw [hx] at hnet
    obtain ⟨filled,-,rfl⟩ := Schema.parse_optional_some.1 hnet
    rfl

def withoutRuntimeName (computer : ComputerConfig) : ComputerConfig := { computer with runtimeName := none }

def currentContract (computer : ComputerConfig) : ComputerConfig := { computer with
  runtimeName := none
  controlProtocolVersion := some controlProtocolVersion
  network := some (computer.network.getD developerNetwork)
  browser := some (computer.browser.getD { maxTabs := 24 }) }

/- A change of the versioned fields and the network keeps the normal form. -/
theorem computerConfigSchema_update (h : (computerConfigSchema z).Normal x) (hy : { y with
      runtimeName := x.runtimeName
      controlProtocolVersion := x.controlProtocolVersion
      network := x.network
      browser := x.browser } = x) (hfie : versionedFields y=true)
    (hnet : (networkPolicySchema z).optional.Normal y.network) : (computerConfigSchema z).Normal y := by
  obtain ⟨hx,contract,network,skillPolicy,hcon,-,hski,hval,heq⟩ :=
    (computerConfigSchema_eq_some z).1 h
  have hdef : y.toComputerDefaults=x.toComputerDefaults := by rw [← hy]
  have hpol : y.skillPolicy=x.skillPolicy := by rw [← hy]
  have henv : y.environment=x.environment := by rw [← hy]
  have hpla : plainFields z y=plainFields z x := by rw [← hy]; rfl
  have hcon' : contract=x.toComputerDefaults := by
    rw [heq]
  have hski' : skillPolicy=x.skillPolicy := by
    rw [heq]
  subst hcon' hski'
  refine (computerConfigSchema_eq_some z).2 ⟨?_,x.toComputerDefaults,y.network,x.skillPolicy,?_,
    hnet,?_,?_,?_⟩
  · simp only [computerFields,Bool.and_eq_true] at hx ⊢
    exact ⟨hpla.trans hx.1,hfie⟩
  · rw [hdef]
    exact hcon
  · rw [hpol]
    exact hski
  · simpa [validateComputer,henv] using hval
  · rw [← hdef,← hpol]

variable {computer : ComputerConfig}

section
variable (h : (computerConfigSchema z).Normal computer)
include h

theorem network_normal :
    (networkPolicySchema z).optional.Normal computer.network := by
  obtain ⟨-,contract,network,skillPolicy,-,hnet,-,-,heq⟩ :=
    (computerConfigSchema_eq_some z).1 h
  have : network=computer.network := by rw [heq]
  rwa [this] at hnet

theorem withoutRuntimeName_normal :
    (computerConfigSchema z).Normal (withoutRuntimeName computer) := by
  have hfie:=((computerConfigSchema_eq_some z).1 h).1
  apply computerConfigSchema_update z (y := withoutRuntimeName computer) h rfl
  · simp only [computerFields,versionedFields,Bool.and_eq_true] at hfie ⊢
    exact ⟨⟨rfl,hfie.2.1.2⟩,hfie.2.2⟩
  · show (networkPolicySchema z).optional.Normal computer.network
    exact network_normal z h

theorem currentContract_normal :
    (computerConfigSchema z).Normal (currentContract computer) := by
  have hfie:=((computerConfigSchema_eq_some z).1 h).1
  have hnet:=network_normal z h
  apply computerConfigSchema_update z (y := currentContract computer) h rfl
  · simp only [computerFields,versionedFields,Bool.and_eq_true] at hfie ⊢
    have hbro:=hfie.2.2
    have hpro : (some controlProtocolVersion).all (within 1 maxSafeInteger)=true := by decide
    refine ⟨⟨rfl,hpro⟩,?_⟩
    show (some (computer.browser.getD _)).all _=true
    cases hb : computer.browser with
    | none => decide
    | some browser => simpa [hb] using hbro
  · show (networkPolicySchema z).optional.Normal (some (computer.network.getD developerNetwork))
    cases hn : computer.network with
    | none => simp [Schema.Normal,Schema.optional,networkPolicySchema,networkPolicyFields,
        developerNetwork,NetworkPolicy.filled,sizeWithin,allUnique]
    | some network => simpa [hn] using hnet

theorem migrateComputerV3_normal :
    migrateComputerV3 z computer=some (withoutRuntimeName computer) := by
  have hres:=withoutRuntimeName_normal z h
  unfold Schema.Normal at h hres
  simp only [migrateComputerV3,h,Option.bind_eq_bind,Option.bind_some]
  exact hres

theorem migrateComputerV4_normal :
    migrateComputerV4 z computer=some (currentContract computer) := by
  have hres:=currentContract_normal z h
  unfold Schema.Normal at h hres
  simp only [migrateComputerV4,h,Option.bind_eq_bind,Option.bind_some]
  exact hres

end

theorem withoutRuntimeName_eq_self :
    withoutRuntimeName computer=computer ↔ computer.runtimeName=none := by
  constructor
  · intro h
    rw [← h]
    rfl
  · intro h
    unfold withoutRuntimeName
    rw [← h]

theorem currentContract_eq_self :
    currentContract computer=computer ↔ computer.runtimeName=none ∧
      computer.controlProtocolVersion=some controlProtocolVersion ∧
      computer.network.isSome ∧ computer.browser.isSome := by
  constructor
  · intro h
    rw [← h]
    exact ⟨rfl,rfl,rfl,rfl⟩
  · rintro ⟨hnam,hpro,hnet,hbro⟩
    obtain ⟨network,hnet⟩ := Option.isSome_iff_exists.1 hnet
    obtain ⟨browser,hbro⟩ := Option.isSome_iff_exists.1 hbro
    cases computer
    simp_all [currentContract]

end Computers

section Legacy
variable {z b}

/- What the current validators ask of the resources of a legacy document. -/
def ResourcesValid (cpus : ℚ) (memory : String) : Prop :=
  validateCpu cpus=true ∧ (normalizeMemory memory).isSome

instance (cpus : ℚ) (memory : String) : Decidable (ResourcesValid cpus memory) := by
  unfold ResourcesValid
  infer_instance

theorem Build.manifest (b : Build) : ∃ digest, b.workstation.image.manifestSha256=some digest ∧
    materialId digest=true ∧ digest ≠ "" := by
  obtain ⟨hpar,hval⟩ := Schema.parse_refine.1 b.workstation_normal
  have hima:=(contractSchema_spec hpar).1
  simp only [contractFields,imageIdentitySchema,Bool.and_eq_true] at hima
  have hdig:=hima.1.1.1.1.2
  simp only [validateContract,List.isEmpty_iff,append_eq_nil_iff] at hval
  have hmis:=hval.2
  cases hm : b.workstation.image.manifestSha256 with
  | none => simp [hm] at hmis
  | some digest =>
    refine ⟨digest,rfl,by simpa [hm] using hdig,?_⟩
    rintro rfl
    simp [hm] at hmis

def workstationContract (b : Build) (image : String) (cpus : ℚ) (memory : String) : ComputerDefaults where
  preset := if image ∈ knownFullImages b then .curated .workstation else .custom
  compatibility := .workstation
  image := { requested := image, resolved := image, contentId := none,
             manifestSha256 := b.workstation.image.manifestSha256 }
  capabilityContractVersion := capabilityContractVersion
  capabilities := capabilitiesForCompatibility .workstation
  cpus := cpus
  memory := memory

theorem workstationContract_image (hima : image ≠ "") (cpus : ℚ) (memory : String) :
    imageIdentitySchema (workstationContract b image cpus memory).image=true := by
  obtain ⟨digest,hdig,hmat,-⟩ := b.manifest
  simp [imageIdentitySchema,workstationContract,hdig,hmat,hima]

theorem legacyContract_eq (hima : image ≠ "") (cpus : ℚ) (memory : String) :
    legacyContract b image cpus memory=some (workstationContract b image cpus memory) := by
  obtain ⟨digest,hdig,-,hne⟩ := b.manifest
  have hval:=workstationContract_image (b := b) hima cpus memory
  have hfil : (some digest).filter (· != "")=some digest := by simp [hne]
  have hide : imageIdentity image image (some digest) =
      some (workstationContract b image cpus memory).image := by
    simp only [workstationContract,hdig] at hval ⊢
    simp only [imageIdentity,hfil,hval,if_true]
  rw [legacyContract,hdig,hide]
  rfl

theorem validateContract_workstation (b : Build) (image : String) (cpus : ℚ) (memory : String) :
    validateContract (workstationContract b image cpus memory)=[] := by
  obtain ⟨digest,hdig,-,hne⟩ := b.manifest
  unfold validateContract workstationContract
  rw [hdig]
  split_ifs <;> simp_all

theorem contractSchema_workstation (hima : image ≠ "") {cpus : ℚ} (hcpu : 0<cpus) {memory : String}
    {contract : ComputerDefaults} :
    contractSchema.parse (workstationContract b image cpus memory)=some contract ↔
      validateCpu cpus=true ∧ ∃ normal, normalizeMemory memory=some normal ∧
        contract=workstationContract b image cpus normal := by
  have hide:=workstationContract_image (b := b) hima cpus memory
  have hsor:=capabilitiesForCompatibility_sorted .workstation
  have hfie : contractFields (workstationContract b image cpus memory)=validateCpu cpus := by
    simp only [contractFields,hide]
    simp [workstationContract,hsor,hcpu]
  rw [contractSchema]
  simp only [hfie,Option.ite_none_right_eq_some,Option.map_eq_some_iff]
  constructor
  · rintro ⟨hval,normal,hnor,rfl⟩
    exact ⟨hval,normal,hnor,rfl⟩
  · rintro ⟨hval,normal,hnor,rfl⟩
    exact ⟨hval,normal,hnor,rfl⟩

def workstationComputer (b : Build) (computer : LegacyComputerConfig) : ComputerConfig :=
  .bare (workstationContract b computer.image computer.cpus
    ((normalizeMemory computer.memory).getD computer.memory)) computer.id computer.name computer.createdAt

variable {computer : LegacyComputerConfig}

theorem legacyComputer_fields (h : legacyComputer z computer=true) :
    z.uuid computer.id=true ∧ namePattern computer.name=true ∧ computer.image ≠ "" ∧
      0<computer.cpus ∧ legacyMemory computer.memory=true ∧
      z.datetime computer.createdAt=true := by
  simpa [legacyComputer,and_assoc] using h

theorem migrateComputerV2_eq_some (h : legacyComputer z computer=true) :
    migrateComputerV2 z b computer=some migrated ↔
      ResourcesValid computer.cpus computer.memory ∧ migrated=workstationComputer b computer := by
  obtain ⟨hid,hnam,hima,hcps,-,hdat⟩ := legacyComputer_fields h
  simp only [migrateComputerV2,legacyContract_eq hima,Option.bind_eq_bind,Option.bind_some,
    computerConfigSchema_eq_some]
  constructor
  · rintro ⟨-,contract,network,skillPolicy,hcon,hnet,hski,-,rfl⟩
    obtain ⟨hcpu,normal,hnor,rfl⟩ := (contractSchema_workstation hima hcps).1 hcon
    cases hnet
    cases hski
    refine ⟨⟨hcpu,by rw [hnor]; rfl⟩,?_⟩
    rw [workstationComputer,hnor]
    rfl
  · rintro ⟨⟨hcpu,hmem⟩,rfl⟩
    obtain ⟨normal,hnor⟩ := Option.isSome_iff_exists.1 hmem
    have hwor : workstationComputer b computer =
        .bare (workstationContract b computer.image computer.cpus normal) computer.id computer.name
          computer.createdAt := by
      rw [workstationComputer,hnor]
      rfl
    refine ⟨?_,workstationContract b computer.image computer.cpus normal,none,none,
      (contractSchema_workstation hima hcps).2 ⟨hcpu,normal,hnor,rfl⟩,rfl,rfl,?_,?_⟩
    · simp [computerFields,plainFields,versionedFields,ComputerConfig.bare,hid,hnam,hdat]
    · have := validateContract_workstation b computer.image computer.cpus normal
      simp [validateComputer,ComputerConfig.bare,validateEnvironment,this]
    · rw [hwor]
      rfl

theorem migrateComputerV2_normal (h : migrateComputerV2 z b computer=some migrated) :
    (computerConfigSchema z).Normal migrated := by
  simp only [migrateComputerV2,Option.bind_eq_bind,Option.bind_eq_some_iff] at h
  obtain ⟨contract,-,hpar⟩ := h
  exact Schema.normal_of_parse hpar

end Legacy

section Documents
variable {z b}

theorem mapM_eq_map {α β : Type} {f : α → Option β} {g : α → β} {xs : List α}
    (h : ∀ x ∈ xs, f x=some (g x)) : xs.mapM f=some (xs.map g) := by
  induction xs with
  | nil => rfl
  | cons x xs ih =>
    have hx:=h x mem_cons_self
    have hxs:=ih fun y hy => h y (mem_cons_of_mem _ hy)
    simp [mapM_cons,hx,hxs]

theorem mapM_eq_some_forall₂ {α β : Type} {f : α → Option β} {xs : List α} {ys : List β} :
    xs.mapM f=some ys ↔ List.Forall₂ (fun x y => f x=some y) xs ys := by
  induction xs generalizing ys with
  | nil => cases ys <;> simp
  | cons x xs ih =>
    simp only [mapM_cons,Option.bind_eq_bind,Option.bind_eq_some_iff,ih]
    constructor
    · rintro ⟨y,hy,zs,hzs,hret⟩
      cases hret
      exact .cons hy hzs
    · intro h
      cases h with
      | cons hy hzs => exact ⟨_,hy,_,hzs,rfl⟩

variable {version : ℕ}

theorem configSchema_eq_some {x y : QubiclConfig} :
    (configSchema z version).parse x=some y ↔
      (x.version=version ∧ z.uuid x.installationId=true ∧
        within 1 maxSafeInteger x.nextName=true) ∧
      ∃ gateway defaults computers, (gatewayConfigSchema z).parse x.gateway=some gateway ∧
        computerDefaultsSchema.parse x.defaults=some defaults ∧
        (computerConfigSchema z).array.parse x.computers=some computers ∧
        validateConfigComputers (computers.map ComputerConfig.identity)=[] ∧
        y = { x with gateway, defaults, computers } := by
  simp only [configSchema,Option.bind_eq_bind,Option.bind_eq_some_iff,Option.ite_none_left_eq_some,
    Option.ite_none_right_eq_some,Option.some.injEq,List.isEmpty_iff,not_or,Bool.not_eq_true',
    Bool.not_eq_false,not_not,ne_eq]
  constructor
  · rintro ⟨hfie,gateway,hgat,defaults,hdef,computers,hcom,hval,rfl⟩
    exact ⟨hfie,gateway,defaults,computers,hgat,hdef,hcom,hval,rfl⟩
  · rintro ⟨hfie,gateway,defaults,computers,hgat,hdef,hcom,hval,rfl⟩
    exact ⟨hfie,gateway,hgat,defaults,hdef,computers,hcom,hval,rfl⟩

variable {config : QubiclConfig}

theorem configSchema_computers
    (h : (configSchema z version).Normal config) :
    (∀ computer ∈ config.computers, (computerConfigSchema z).Normal computer) ∧
      validateConfigComputers (config.computers.map ComputerConfig.identity)=[] := by
  obtain ⟨-,gateway,defaults,computers,-,-,hcom,hval,heq⟩ := configSchema_eq_some.1 h
  have : computers=config.computers := by rw [heq]
  subst this
  exact ⟨Schema.array_normal.1 hcom,hval⟩

theorem configSchema_nodup
    (h : (configSchema z version).Normal config) : (config.computers.map (·.id)).Nodup := by
  have := validateConfigComputers_nodup (configSchema_computers h).2
  simpa [ComputerConfig.identity,Function.comp_def] using this

theorem configSchema_upgrade {f : ComputerConfig → ComputerConfig}
    (h : (configSchema z version).Normal config)
    (hnor : ∀ computer ∈ config.computers, (computerConfigSchema z).Normal (f computer))
    (hide : ∀ computer, (f computer).identity=computer.identity) (target : ℕ) :
    (configSchema z target).Normal
      { config with version := target, computers := config.computers.map f } := by
  obtain ⟨hfie,gateway,defaults,computers,hgat,hdef,hcom,hval,heq⟩ :=
    configSchema_eq_some.1 h
  have hc : computers=config.computers := by rw [heq]
  have hg : gateway=config.gateway := by rw [heq]
  have hd : defaults=config.defaults := by rw [heq]
  subst hc hg hd
  refine configSchema_eq_some.2 ⟨⟨rfl,hfie.2⟩,config.gateway,config.defaults,
    config.computers.map f,hgat,hdef,?_,?_,rfl⟩
  · apply Schema.array_normal.2
    intro computer hmem
    obtain ⟨old,hold,rfl⟩ := mem_map.1 hmem
    exact hnor old hold
  · have : (ComputerConfig.identity ∘ f)=ComputerConfig.identity := funext hide
    rw [map_map,this]
    exact hval

theorem migrateConfigV3_normal (h : (configSchema z 3).Normal config) :
    migrateConfigV3 z config=some { config with
      version := stateFormatVersion, computers := config.computers.map withoutRuntimeName } := by
  have hcom:=(configSchema_computers h).1
  have hmap:=mapM_eq_map fun computer hmem => migrateComputerV3_normal z (hcom computer hmem)
  have hres:=configSchema_upgrade h
    (fun computer hmem => withoutRuntimeName_normal z (hcom computer hmem)) (fun _ => rfl)
    stateFormatVersion
  unfold Schema.Normal at h hres
  simp only [migrateConfigV3,h,Option.bind_eq_bind,Option.bind_some,hmap]
  exact hres

theorem migrateConfigV4_normal (h : (configSchema z 4).Normal config) :
    migrateConfigV4 z config=some { config with
      version := stateFormatVersion, computers := config.computers.map currentContract } := by
  have hcom:=(configSchema_computers h).1
  have hmap:=mapM_eq_map fun computer hmem => migrateComputerV4_normal z (hcom computer hmem)
  have hres:=configSchema_upgrade h
    (fun computer hmem => currentContract_normal z (hcom computer hmem)) (fun _ => rfl)
    stateFormatVersion
  unfold Schema.Normal at h hres
  simp only [migrateConfigV4,h,Option.bind_eq_bind,Option.bind_some,hmap]
  exact hres

theorem secretsSchema_eq_some {x y : QubiclSecrets} :
    (secretsSchema z version).parse x=some y ↔
      (x.version=version ∧ x.gateway.all (fun gateway => gatewayExposureTlsSecretSchema gateway.tls)) ∧
      ∃ computers, (Schema.record z.uuid (computerSecretSchema z)).parse x.computers=some computers ∧
        y = { x with computers } := by
  simp only [secretsSchema,Option.ite_none_right_eq_some,Option.map_eq_some_iff]
  constructor
  · rintro ⟨hfie,computers,hcom,rfl⟩
    exact ⟨hfie,computers,hcom,rfl⟩
  · rintro ⟨hfie,computers,hcom,rfl⟩
    exact ⟨hfie,computers,hcom,rfl⟩

theorem migrateSecrets_normal (h : (secretsSchema z version).Normal secrets) :
    migrateSecrets z version secrets=some { secrets with version := stateFormatVersion } := by
  obtain ⟨hfie,computers,hcom,heq⟩ := secretsSchema_eq_some.1 h
  have hc : computers=secrets.computers := by rw [heq]
  subst hc
  unfold Schema.Normal at h
  simp only [migrateSecrets,h,Option.bind_eq_bind,Option.bind_some]
  exact secretsSchema_eq_some.2 ⟨⟨rfl,hfie.2⟩,secrets.computers,hcom,rfl⟩

theorem legacySecretsSchema_eq_some {x y : QubiclSecrets} :
    (legacySecretsSchema z version).parse x=some y ↔ x.version=version ∧
      ∃ computers, (Schema.record z.uuid (computerSecretSchema z)).parse x.computers=some computers ∧
        y = { x with computers, gateway := none } := by
  simp only [legacySecretsSchema,Option.ite_none_right_eq_some,Option.map_eq_some_iff]
  constructor
  · rintro ⟨hfie,computers,hcom,rfl⟩
    exact ⟨hfie,computers,hcom,rfl⟩
  · rintro ⟨hfie,computers,hcom,rfl⟩
    exact ⟨hfie,computers,hcom,rfl⟩

theorem migrateLegacySecrets_normal (h : (legacySecretsSchema z version).Normal secrets) :
    migrateLegacySecrets z secrets=some { secrets with version := stateFormatVersion } := by
  obtain ⟨-,computers,hcom,heq⟩ := legacySecretsSchema_eq_some.1 h
  have hc : computers=secrets.computers := by rw [heq]
  have hg : secrets.gateway=none := by rw [heq]
  subst hc
  rw [migrateLegacySecrets,secretsSchema_eq_some]
  refine ⟨⟨rfl,rfl⟩,secrets.computers,hcom,?_⟩
  rw [← hg]

def workstationConfig (b : Build) (config : LegacyQubiclConfig) (installationId : String) : QubiclConfig where
  version := stateFormatVersion
  installationId := installationId
  gateway := {
    port := config.gatewayPort
    image := b.gatewayImage
    viewerReconnectGraceSeconds := some 10
    exposure := none }
  defaults := workstationContract b config.defaults.image config.defaults.cpus
    ((normalizeMemory config.defaults.memory).getD config.defaults.memory)
  nextName := config.nextName
  computers := config.computers.map (workstationComputer b)

def ConfigResourcesValid (config : LegacyQubiclConfig) : Prop :=
  ResourcesValid config.defaults.cpus config.defaults.memory ∧
    ∀ computer ∈ config.computers, ResourcesValid computer.cpus computer.memory

theorem migrateComputerV2_mapM {computers : List LegacyComputerConfig}
    (h : ∀ computer ∈ computers, legacyComputer z computer=true) {migrated : List ComputerConfig} :
    computers.mapM (migrateComputerV2 z b)=some migrated ↔
      (∀ computer ∈ computers, ResourcesValid computer.cpus computer.memory) ∧
        migrated=computers.map (workstationComputer b) := by
  constructor
  · intro hmap
    rw [mapM_eq_some_forall₂] at hmap
    have hval : ∀ computer ∈ computers, ResourcesValid computer.cpus computer.memory ∧
        migrateComputerV2 z b computer=some (workstationComputer b computer) := by
      intro computer hmem
      obtain ⟨i,hi,rfl⟩ := getElem_of_mem hmem
      have hpai:=hmap.get hi (hmap.length_eq ▸ hi)
      obtain ⟨hres,-⟩ := (migrateComputerV2_eq_some (h _ hmem)).1 hpai
      exact ⟨hres,(migrateComputerV2_eq_some (h _ hmem)).2 ⟨hres,rfl⟩⟩
    refine ⟨fun computer hmem => (hval computer hmem).1,?_⟩
    have := mapM_eq_map fun computer hmem => (hval computer hmem).2
    rw [mapM_eq_some_forall₂.2 hmap] at this
    exact Option.some.inj this
  · rintro ⟨hval,rfl⟩
    exact mapM_eq_map fun computer hmem =>
      (migrateComputerV2_eq_some (h computer hmem)).2 ⟨hval computer hmem,rfl⟩

theorem legacyConfigFields_spec {config : LegacyQubiclConfig} (h : legacyConfigFields z config=true) :
    within 1 65535 config.gatewayPort=true ∧ within 1 maxSafeInteger config.nextName=true ∧
      (config.defaults.image ≠ "" ∧ 0<config.defaults.cpus) ∧
      (∀ computer ∈ config.computers, legacyComputer z computer=true) ∧
      validateConfigComputers (config.computers.map LegacyComputerConfig.identity)=[] := by
  simp only [legacyConfigFields,legacyDefaults,Bool.and_eq_true,all_eq_true,bne_iff_ne,ne_eq,
    decide_eq_true_eq,List.isEmpty_iff] at h
  exact ⟨h.1.1.1.1,h.1.1.1.2,h.1.1.2.1,h.1.2,h.2⟩

theorem migrateConfigV2_eq_some {config : LegacyQubiclConfig} {installationId : String}
    {migrated : QubiclConfig} (h : legacyConfigFields z config=true)
    (hid : config.installationId=some installationId) (huui : z.uuid installationId=true) :
    migrateConfigV2 z b config=some migrated ↔
      ConfigResourcesValid config ∧ migrated=workstationConfig b config installationId := by
  obtain ⟨hpor,hnex,⟨hima,hcps⟩,hcom,hval⟩ := legacyConfigFields_spec h
  have hgat : (gatewayConfigSchema z).parse
      ⟨config.gatewayPort,b.gatewayImage,none,none⟩ =
        some (workstationConfig b config installationId).gateway := by
    have hfie : gatewayFields z ⟨config.gatewayPort,b.gatewayImage,none,none⟩=true := by
      simp [gatewayFields,hpor,b.gateway_valid.1,b.gateway_valid.2,validateGateway]
    simp only [gatewayConfigSchema,hfie,if_true]
    rfl
  have hdef : ∀ contract, computerDefaultsSchema.parse
      (workstationContract b config.defaults.image config.defaults.cpus config.defaults.memory) =
        some contract ↔ ResourcesValid config.defaults.cpus config.defaults.memory ∧
          contract=(workstationConfig b config installationId).defaults := by
    intro contract
    rw [computerDefaultsSchema,Schema.parse_refine,contractSchema_workstation hima hcps]
    constructor
    · rintro ⟨⟨hcpu,normal,hnor,rfl⟩,-⟩
      refine ⟨⟨hcpu,by rw [hnor]; rfl⟩,?_⟩
      show _=workstationContract _ _ _ _
      rw [hnor]
      rfl
    · rintro ⟨⟨hcpu,hmey⟩,rfl⟩
      obtain ⟨normal,hnor⟩ := Option.isSome_iff_exists.1 hmey
      refine ⟨⟨hcpu,normal,hnor,?_⟩,?_⟩
      · show workstationContract _ _ _ _=_
        rw [hnor]
        rfl
      · show (validateContract (workstationContract _ _ _ _)).isEmpty=true
        rw [validateContract_workstation]
        rfl
  have hide : (config.computers.map (workstationComputer b)).map ComputerConfig.identity =
      config.computers.map LegacyComputerConfig.identity := by
    rw [map_map]
    rfl
  simp only [migrateConfigV2,legacyContract_eq hima,Option.bind_eq_bind,Option.bind_some,
    Option.bind_eq_some_iff,migrateComputerV2_mapM hcom,configSchema_eq_some,hgat,hid,
    Option.getD_some,hdef]
  constructor
  · rintro ⟨migratedComputers,⟨hres,rfl⟩,-,gateway,defaults,computers,hg,
      ⟨hdefaultResources,rfl⟩,hpar,-,rfl⟩
    cases hg
    have hnor : (computerConfigSchema z).array.Normal (config.computers.map (workstationComputer b)) := by
      apply Schema.array_normal.2
      intro computer hmem
      obtain ⟨old,hold,rfl⟩ := mem_map.1 hmem
      exact migrateComputerV2_normal
        ((migrateComputerV2_eq_some (b := b) (hcom old hold)).2 ⟨hres old hold,rfl⟩)
    rw [hnor] at hpar
    cases hpar
    exact ⟨⟨hdefaultResources,hres⟩,rfl⟩
  · rintro ⟨⟨hdefaultResources,hres⟩,rfl⟩
    refine ⟨_,⟨hres,rfl⟩,⟨trivial,huui,hnex⟩,_,_,config.computers.map (workstationComputer b),
      rfl,⟨hdefaultResources,rfl⟩,?_,?_,rfl⟩
    · apply Schema.array_normal.2
      intro computer hmem
      obtain ⟨old,hold,rfl⟩ := mem_map.1 hmem
      exact migrateComputerV2_normal
        ((migrateComputerV2_eq_some (b := b) (hcom old hold)).2 ⟨hres old hold,rfl⟩)
    · rw [hide]
      exact hval

theorem migrateConfigV1_eq_some {config : LegacyQubiclConfig} {installationId : String}
    {migrated : QubiclConfig} (hver : config.version=1) (h : legacyConfigFields z config=true)
    (huui : z.uuid installationId=true) :
    migrateConfigV1 z b config installationId=some migrated ↔
      ConfigResourcesValid config ∧ migrated=workstationConfig b config installationId := by
  have hpar : (legacyConfigV1Schema z).parse config=some { config with installationId := none } :=
    if_pos ⟨hver,h⟩
  have hpar' : (legacyConfigV2Schema z).parse
      { config with version := 2, installationId := some installationId } =
        some { config with version := 2, installationId := some installationId } := by
    apply Schema.parse_check.2
    refine ⟨?_,rfl⟩
    simp only [Bool.and_eq_true,decide_eq_true_eq,Option.any_some]
    exact ⟨⟨trivial,huui⟩,h⟩
  simp only [migrateConfigV1,hpar,hpar',Option.bind_eq_bind,Option.bind_some]
  exact @migrateConfigV2_eq_some z b
    { config with version := 2, installationId := some installationId } _ _ h rfl huui

def workstationMetadata (b : Build) (metadata : LegacyMetadata) : ComputerMetadata where
  toComputerConfig := workstationComputer b metadata.toLegacyComputerConfig
  deletedAt := metadata.deletedAt

theorem migrateMetadataV2_eq_some {metadata : LegacyMetadata} {migrated : ComputerMetadata}
    (h : legacyMetadataV2Schema z metadata=true) :
    migrateMetadataV2 z b metadata=some migrated ↔
      ResourcesValid metadata.cpus metadata.memory ∧ migrated=workstationMetadata b metadata := by
  simp only [legacyMetadataV2Schema,Bool.and_eq_true] at h
  obtain ⟨hcom,hdat⟩ := h
  have hfil : metadata.deletedAt.filter (· != "")=metadata.deletedAt := by
    cases hd : metadata.deletedAt with
    | none => rfl
    | some date =>
      rw [hd] at hdat
      have hne : date ≠ "" := by
        rintro rfl
        simp [z.datetime_empty] at hdat
      simp [hne]
  simp only [migrateMetadataV2,Option.bind_eq_bind,Option.bind_eq_some_iff,
    migrateComputerV2_eq_some hcom,hfil]
  have hpar : ResourcesValid metadata.cpus metadata.memory →
      (metadataSchema z).parse (workstationMetadata b metadata)=some (workstationMetadata b metadata) := by
    intro hres
    have hnor:=migrateComputerV2_normal
      ((migrateComputerV2_eq_some (b := b) hcom).2 ⟨hres,rfl⟩)
    unfold Schema.Normal at hnor
    simp only [metadataSchema,workstationMetadata,hdat,hnor,if_true,Option.map_some]
  constructor
  · rintro ⟨computer,⟨hres,rfl⟩,hmet⟩
    have heq:=(hpar hres).symm.trans hmet
    exact ⟨hres,(Option.some.inj heq).symm⟩
  · rintro ⟨hres,rfl⟩
    exact ⟨_,⟨hres,rfl⟩,hpar hres⟩

end Documents

end Qubicl.Core
