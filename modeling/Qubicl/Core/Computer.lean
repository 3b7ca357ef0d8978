import Qubicl.Core.GatewayAccess
import Qubicl.Core.Presets

/-!
# Computers (packages/core/src/config.ts:49-240, 477-480, skills.ts:7-54)

The configuration of one computer and its schema. `computerConfigSchema` fills
in the defaults of the network policy, renames and deduplicates the enabled
skills and normalises the amount of memory; every other field is only checked.
A schema is given the values after the keys were checked: a value of a record
type has no unknown key.
-/

namespace Qubicl.Core
open Foundation List

section Patterns
open Regex

/- `/^[a-z0-9](?:[a-z0-9-]{0,61}[a-z0-9])?$/` -/
def namePattern : String → Bool :=
  (seq lowerOrDigit (maybe (seq (upTo 61 (choice [lowerOrDigit,oneOf "-"])) lowerOrDigit))).test
/- `/^[a-zA-Z0-9][a-zA-Z0-9_.-]{0,62}$/` -/
def runtimeNamePattern : String → Bool :=
  (seq (choice [lower,upper,digit]) (upTo 62 (choice [lower,upper,digit,oneOf "_.-"]))).test
/- `/^(?:\*\.)?[a-z0-9](?:[a-z0-9.-]*[a-z0-9])?$/i` -/
def domainRegex : String → Bool :=
  let letter:=choice [lower,upper,digit]
  (sequence [maybe (text "*."),letter,
    maybe (seq (star (choice [letter,oneOf ".-"])) letter)]).test
/- the pattern of `CatalogSkillIdSchema` -/
def catalogSkillPattern : String → Bool :=
  (choice [
    sequence [choice [text "qubicl-core",text "imported"],text "/",lowerOrDigit,
      star (choice [lowerOrDigit,oneOf "-"])],
    sequence [text "hermes-",choice [text "default",text "optional"],text "/",lowerOrDigit,
      star (choice [lowerOrDigit,oneOf "-/"])]]).test
/- `/^[a-z0-9][a-z0-9+.-]*(?::[a-z0-9-]+)?(?:=[A-Za-z0-9.+:~_-]+)?$/u` -/
def aptPackagePattern : String → Bool :=
  (sequence [lowerOrDigit,star (choice [lowerOrDigit,oneOf "+.-"]),
    maybe (seq (text ":") (oneOrMore (choice [lowerOrDigit,oneOf "-"]))),
    maybe (seq (text "=") (oneOrMore (choice [upper,lower,digit,oneOf ".+:~_-"])))]).test
/- `/^\/home\/qubicl(?:\/.*)?$/u` -/
def workspaceFolderPattern : String → Bool :=
  let any:=char fun c => !(['\n','\r','\u2028','\u2029'].contains c)
  (seq (text "/home/qubicl") (maybe (seq (text "/") (star any)))).test
/- `/^[A-Z_][A-Z0-9_]*$/` -/
def environmentName : String → Bool :=
  (seq (choice [upper,oneOf "_"]) (star (choice [upper,digit,oneOf "_"]))).test

end Patterns

structure ImageIdentity where
  requested : String
  resolved : String
  contentId : Option String
  manifestSha256 : Option String
  deriving DecidableEq, Repr

def imageIdentitySchema (value : ImageIdentity) : Bool :=
  value.requested != "" && value.resolved != "" && value.contentId.all sha256 &&
    value.manifestSha256.all materialId

/- `contractFields`, which is all of `ComputerDefaultsSchema` -/
structure ComputerDefaults where
  preset : ConfigPreset
  compatibility : Preset
  image : ImageIdentity
  capabilityContractVersion : ℕ
  capabilities : List Capability
  cpus : ℚ
  memory : String
  deriving DecidableEq, Repr

def presetText : Preset → String
  | .fileSystem => "file-system"
  | .browser => "browser"
  | .computer => "computer"
  | .workstation => "workstation"

def validateContract (value : ComputerDefaults) : List Issue :=
  (if value.preset≠.custom ∧ value.preset≠.curated value.compatibility then
    [⟨["compatibility"],"curated presets must use matching compatibility"⟩] else []) ++
  (if value.capabilities≠capabilitiesForCompatibility value.compatibility then
    [⟨["capabilities"],
      "capabilities must exactly match " ++ presetText value.compatibility ++ " compatibility"⟩]
    else []) ++
  (if value.image.manifestSha256.all (· == "") then
    [⟨["image","manifestSha256"],"computer images require an expected manifest digest"⟩] else [])

def contractFields (value : ComputerDefaults) : Bool :=
  imageIdentitySchema value.image && value.capabilityContractVersion == capabilityContractVersion &&
    sortedUniqueCapabilities value.capabilities && decide (0<value.cpus) && validateCpu value.cpus

def contractSchema : Schema ComputerDefaults where
  parse value :=
    if contractFields value then
      (normalizeMemory value.memory).map fun memory => { value with memory }
    else none
  stable {x y} h := by
    obtain ⟨hfields,hmap⟩ := Option.ite_none_right_eq_some.1 h
    obtain ⟨memory,hmemory,rfl⟩ := Option.map_eq_some_iff.1 hmap
    have : contractFields { x with memory } = true := hfields
    rw [if_pos this,normalizeMemory_stable hmemory]
    rfl

def computerDefaultsSchema : Schema ComputerDefaults :=
  contractSchema.refine fun value => (validateContract value).isEmpty

inductive NetworkProfile
  | developer | webOnly | offline | custom
  deriving DecidableEq, Repr

structure TemporaryApproval where
  domain : String
  expiresAt : String
  deriving DecidableEq, Repr

/- The lists may be absent in a document; the schema fills in `[]`. -/
structure NetworkPolicy where
  profile : NetworkProfile
  allowDomains : Option (List String)
  denyDomains : Option (List String)
  allowCidrs : Option (List String)
  allowTcpPorts : Option (List ℕ)
  temporaryApprovals : Option (List TemporaryApproval)
  deriving DecidableEq, Repr

def domainPattern (value : String) : Bool := lengthWithin 1 253 value && domainRegex value

variable (z : Formats)

def cidrPattern (value : String) : Bool :=
  let (address,prefixText) := splitLastSlash value
  let family:=z.isIP (String.ofList address)
  lengthWithin 3 64 value && value.toList.contains '/' && family != 0 &&
    (Number.ofText prefixText).any fun size =>
      size.den == 1 && decide (0 ≤ size) && decide (size ≤ if family=4 then 32 else 128)

def networkPolicyFields (value : NetworkPolicy) : Bool :=
  value.allowDomains.all (fun domains => sizeWithin 0 256 domains && domains.all domainPattern) &&
  value.denyDomains.all (fun domains => sizeWithin 0 256 domains && domains.all domainPattern) &&
  value.allowCidrs.all (fun cidrs => sizeWithin 0 64 cidrs && cidrs.all (cidrPattern z)) &&
  value.allowTcpPorts.all (fun ports =>
    sizeWithin 0 128 ports && ports.all (within 1 65535) && allUnique ports) &&
  value.temporaryApprovals.all (fun approvals => sizeWithin 0 64 approvals &&
    approvals.all fun approval => domainPattern approval.domain && z.datetime approval.expiresAt)

def NetworkPolicy.filled (value : NetworkPolicy) : NetworkPolicy where
  profile := value.profile
  allowDomains := some (value.allowDomains.getD [])
  denyDomains := some (value.denyDomains.getD [])
  allowCidrs := some (value.allowCidrs.getD [])
  allowTcpPorts := some (value.allowTcpPorts.getD [])
  temporaryApprovals := some (value.temporaryApprovals.getD [])

theorem networkPolicyFields_filled {value : NetworkPolicy} (h : networkPolicyFields z value=true) :
    networkPolicyFields z value.filled=true := by
  have key : ∀ {α : Type} {p : List α → Bool} {o : Option (List α)}, p []=true → o.all p=true →
      (some (o.getD [])).all p=true := by
    intro α p o hp ho
    cases o with
    | none => exact hp
    | some xs => exact ho
  simp only [networkPolicyFields,Bool.and_eq_true] at h ⊢
  obtain ⟨⟨⟨⟨hall,hden⟩,hcid⟩,hpor⟩,happ⟩ := h
  exact ⟨⟨⟨⟨key (by simp [sizeWithin]) hall,key (by simp [sizeWithin]) hden⟩,
    key (by simp [sizeWithin]) hcid⟩,key (by simp [sizeWithin,allUnique]) hpor⟩,
    key (by simp [sizeWithin]) happ⟩

def networkPolicySchema : Schema NetworkPolicy where
  parse value := if networkPolicyFields z value then some value.filled else none
  stable {x y} h := by
    obtain ⟨hfields,hy⟩ := Option.ite_none_right_eq_some.1 h
    cases hy
    exact if_pos (networkPolicyFields_filled z hfields)

structure SshAccess where
  enabled : Bool
  port : ℕ
  publicKey : String
  fingerprint : String
  deriving DecidableEq, Repr

def sshAccessSchema (value : SshAccess) : Bool :=
  within 1024 65535 value.port && lengthWithin 32 16384 value.publicKey &&
    lengthWithin 8 256 value.fingerprint

def toolPolicySchema (tools : List ComputerToolName) : Bool :=
  allUnique tools &&
    [.get_computer_status,.acquire_lease,.renew_lease,.release_lease].all tools.contains

structure SkillPolicy where
  enabledCatalogSkills : List String
  deriving DecidableEq, Repr

def legacyCoreSkillIds : List (String × String) := [
  ("hermes-default/software-development/plan","qubicl-core/plan"),
  ("hermes-default/productivity/pdf","qubicl-core/pdf"),
  ("hermes-default/productivity/docx","qubicl-core/docx"),
  ("hermes-default/productivity/xlsx","qubicl-core/xlsx"),
  ("hermes-default/productivity/powerpoint","qubicl-core/powerpoint"),
  ("hermes-default/productivity/ocr-and-documents","qubicl-core/ocr-and-documents")]

/- `LEGACY_CORE_SKILL_IDS[id] ?? id` -/
def currentSkillId (id : String) : String := (legacyCoreSkillIds.lookup id).getD id

/- `[...new Set(values)]` -/
def distinct : List String → List String
  | [] => []
  | x::xs => x::(distinct xs).filter (· ≠ x)

theorem mem_distinct {x : String} {xs : List String} : x ∈ distinct xs ↔ x ∈ xs := by
  induction xs with
  | nil => simp [distinct]
  | cons y ys ih =>
    simp only [distinct,mem_cons,mem_filter,ih,decide_eq_true_eq]
    by_cases h : x=y <;> simp [h]

theorem nodup_distinct (xs : List String) : (distinct xs).Nodup := by
  induction xs with
  | nil => simp [distinct]
  | cons y ys ih => simpa [distinct] using ih.filter _

theorem length_distinct_le (xs : List String) : (distinct xs).length≤xs.length := by
  induction xs with
  | nil => simp [distinct]
  | cons y ys ih =>
    have := length_filter_le (fun x => decide (x≠y)) (distinct ys)
    simp only [distinct,length_cons]
    omega

theorem distinct_eq_self {xs : List String} (h : xs.Nodup) : distinct xs=xs := by
  induction xs with
  | nil => rfl
  | cons y ys ih =>
    obtain ⟨hy,hys⟩ := nodup_cons.1 h
    rw [distinct,ih hys,filter_eq_self.2]
    intro x hx
    simpa using fun heq : x=y => hy (heq ▸ hx)

def normalizeOperatorSkillIds (ids : List String) : List String := distinct (ids.map currentSkillId)

def catalogSkillIdSchema (id : String) : Bool := lengthWithin 3 256 id && catalogSkillPattern id

def enabledCatalogSkillsSchema (skills : List String) : Bool :=
  skills.all catalogSkillIdSchema && sizeWithin 0 199 skills && allUnique skills

theorem lookup_mem {table : List (String × String)} {key value : String}
    (h : table.lookup key=some value) : (key,value) ∈ table := by
  induction table with
  | nil => simp at h
  | cons entry rest ih =>
    obtain ⟨k,v⟩ := entry
    rw [lookup_cons] at h
    split at h
    · rename_i hk
      rw [beq_iff_eq] at hk
      cases h
      simp [hk]
    · exact mem_cons_of_mem _ (ih h)

theorem currentSkillId_currentSkillId (id : String) :
    currentSkillId (currentSkillId id)=currentSkillId id := by
  have htab : ∀ entry ∈ legacyCoreSkillIds, legacyCoreSkillIds.lookup entry.2=none := by
    decide
  unfold currentSkillId
  cases h : legacyCoreSkillIds.lookup id with
  | none => simp [h]
  | some value => simp [htab _ (lookup_mem h)]

theorem catalogSkillIdSchema_current {id : String} (h : catalogSkillIdSchema id=true) :
    catalogSkillIdSchema (currentSkillId id)=true := by
  have htab : ∀ entry ∈ legacyCoreSkillIds, catalogSkillIdSchema entry.2=true := by
    decide
  unfold currentSkillId
  cases hl : legacyCoreSkillIds.lookup id with
  | none => simpa only [Option.getD_none] using h
  | some value =>
    have hval:=htab _ (lookup_mem hl)
    simpa only [Option.getD_some] using hval

theorem normalizeOperatorSkillIds_stable (ids : List String) :
    normalizeOperatorSkillIds (normalizeOperatorSkillIds ids)=normalizeOperatorSkillIds ids := by
  have hfix : ∀ id ∈ normalizeOperatorSkillIds ids, currentSkillId id=id := by
    intro id hid
    obtain ⟨old,-,rfl⟩ := mem_map.1 (mem_distinct.1 hid)
    exact currentSkillId_currentSkillId old
  have hmap : (normalizeOperatorSkillIds ids).map currentSkillId=normalizeOperatorSkillIds ids := by
    rw [map_congr_left hfix,map_id']
  rw [normalizeOperatorSkillIds,hmap]
  exact distinct_eq_self (nodup_distinct _)

theorem enabledCatalogSkillsSchema_normalize {skills : List String}
    (h : enabledCatalogSkillsSchema skills=true) :
    enabledCatalogSkillsSchema (normalizeOperatorSkillIds skills)=true := by
  simp only [enabledCatalogSkillsSchema,sizeWithin,allUnique,Bool.and_eq_true,all_eq_true,
    decide_eq_true_eq] at h ⊢
  obtain ⟨⟨hall,-,hsiz⟩,-⟩ := h
  refine ⟨⟨?_,Nat.zero_le _,?_⟩,nodup_distinct _⟩
  · intro id hid
    obtain ⟨old,hold,rfl⟩ := mem_map.1 (mem_distinct.1 hid)
    exact catalogSkillIdSchema_current (hall old hold)
  · have := length_distinct_le (skills.map currentSkillId)
    rw [length_map] at this
    exact Nat.le_trans this hsiz

def skillPolicySchema : Schema SkillPolicy where
  parse value :=
    if enabledCatalogSkillsSchema value.enabledCatalogSkills then
      some ⟨normalizeOperatorSkillIds value.enabledCatalogSkills⟩
    else none
  stable {x y} h := by
    obtain ⟨hfields,hy⟩ := Option.ite_none_right_eq_some.1 h
    cases hy
    rw [if_pos (enabledCatalogSkillsSchema_normalize hfields),normalizeOperatorSkillIds_stable]

structure TaskPolicy where
  maxConcurrent : ℕ
  maxLifetimeSeconds : ℕ
  maxOutputBytes : ℕ
  completedRetentionSeconds : ℕ
  deriving DecidableEq, Repr

def taskPolicySchema (value : TaskPolicy) : Bool :=
  within 1 128 value.maxConcurrent && within 60 (30*24*60*60) value.maxLifetimeSeconds &&
    within 1000000 500000000 value.maxOutputBytes &&
    within 60 (30*24*60*60) value.completedRetentionSeconds

structure StoragePolicy where
  homeWarningBytes : ℕ
  backupWarningBytes : ℕ
  deriving DecidableEq, Repr

def storagePolicySchema (value : StoragePolicy) : Bool :=
  within 0 maxSafeInteger value.homeWarningBytes && within 0 maxSafeInteger value.backupWarningBytes

structure SoftwareRecipe where
  baseImage : String
  basePreset : Option Preset
  baseIdentity : Option ImageIdentity
  aptPackages : List String
  deriving DecidableEq, Repr

def softwareRecipeSchema (value : SoftwareRecipe) : Bool :=
  lengthWithin 1 1024 value.baseImage && value.baseIdentity.all imageIdentitySchema &&
    sizeWithin 1 128 value.aptPackages &&
    value.aptPackages.all fun package => aptPackagePattern package && lengthWithin 0 256 package

structure BrowserPolicy where
  maxTabs : ℕ
  deriving DecidableEq, Repr

structure DevcontainerHooks where
  onCreateCommand : Option String
  updateContentCommand : Option String
  postCreateCommand : Option String
  postStartCommand : Option String
  deriving DecidableEq, Repr

structure Devcontainer where
  workspaceFolder : Option String
  hooks : Option DevcontainerHooks
  deriving DecidableEq, Repr

def devcontainerSchema (value : Devcontainer) : Bool :=
  value.workspaceFolder.all (fun folder => workspaceFolderPattern folder && lengthWithin 0 4096 folder) &&
    value.hooks.all fun hooks =>
      [hooks.onCreateCommand,hooks.updateContentCommand,hooks.postCreateCommand,
        hooks.postStartCommand].all fun command => command.all (lengthWithin 1 32768)

def environmentSchema (value : Record String) : Bool :=
  value.keys.all environmentName && decide (value.entries.length≤128) &&
    value.entries.all fun entry => lengthWithin 0 8192 entry.2 && !entry.2.toList.contains '\x00'

def reservedEnvironmentNames : List String :=
  ["HOME","PATH","USER","LOGNAME","SHELL","LD_PRELOAD","NODE_OPTIONS"]

def validateEnvironment (environment : Option (Record String)) : List Issue :=
  ((environment.map Record.keys).getD []).filterMap fun key =>
    if key.startsWith "QUBICL_" || reservedEnvironmentNames.contains key then
      some ⟨["environment",key],"reserved environment name"⟩ else none

structure ComputerConfig extends ComputerDefaults where
  id : String
  name : String
  runtimeName : Option String
  createdAt : String
  controlProtocolVersion : Option ℕ
  browser : Option BrowserPolicy
  devcontainer : Option Devcontainer
  software : Option SoftwareRecipe
  network : Option NetworkPolicy
  ssh : Option SshAccess
  environment : Option (Record String)
  toolPolicy : Option (List ComputerToolName)
  skillPolicy : Option SkillPolicy
  tasks : Option TaskPolicy
  storage : Option StoragePolicy
  deriving DecidableEq, Repr

/- The fields that the upgrades to formats 4 and 5 are about. -/
def versionedFields (value : ComputerConfig) : Bool :=
  value.runtimeName.all runtimeNamePattern && value.controlProtocolVersion.all (within 1 maxSafeInteger) &&
    value.browser.all fun browser => within 1 128 browser.maxTabs

def plainFields (value : ComputerConfig) : Bool :=
  z.uuid value.id && namePattern value.name && z.datetime value.createdAt &&
    value.devcontainer.all devcontainerSchema && value.software.all softwareRecipeSchema &&
    value.ssh.all sshAccessSchema && value.environment.all environmentSchema &&
    value.toolPolicy.all toolPolicySchema && value.tasks.all taskPolicySchema &&
    value.storage.all storagePolicySchema

/- The fields that the schema does not change. -/
def computerFields (value : ComputerConfig) : Bool := plainFields z value && versionedFields value

def validateComputer (value : ComputerConfig) : List Issue :=
  validateContract value.toComputerDefaults++validateEnvironment value.environment

def computerConfigSchema : Schema ComputerConfig where
  parse value :=
    if !computerFields z value then none
    else do
      let contract ← contractSchema.parse value.toComputerDefaults
      let network ← (networkPolicySchema z).optional.parse value.network
      let skillPolicy ← skillPolicySchema.optional.parse value.skillPolicy
      let parsed:={ value with toComputerDefaults := contract, network, skillPolicy }
      if (validateComputer parsed).isEmpty then some parsed else none
  stable {x y} h := by
    simp only [Option.bind_eq_bind,Option.bind_eq_some_iff,Option.ite_none_left_eq_some,
      Option.ite_none_right_eq_some,Option.some.injEq] at h
    obtain ⟨hfields,contract,hcontract,network,hnetwork,skillPolicy,hskill,hvalid,rfl⟩ := h
    have hfields' : ¬ (!computerFields z { x with toComputerDefaults := contract, network, skillPolicy })
        = true := hfields
    rw [if_neg hfields']
    simp only [contractSchema.stable hcontract,Schema.stable _ hnetwork,Schema.stable _ hskill,
      Option.bind_eq_bind,Option.bind_some,hvalid,if_true]

end Qubicl.Core
