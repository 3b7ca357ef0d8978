import Qubicl.Core.Upgrade
import Qubicl.Foundation.Shape

/-!
# Manifests (packages/core/src/config.ts:73-80, 108-117, 184-190, 235-246, 930-1000)

A manifest is what a configuration has that is portable. A document is read by its keys and then checked; what is read is
written in the order of its schema. The text of a document and its value are not told apart.
-/

namespace Qubicl.Core
open Foundation Option

def configPresetText : ConfigPreset → String
  | .curated preset => presetText preset
  | .custom => "custom"

def capabilityText : Capability → String
  | .shell => "shell"
  | .process => "process"
  | .files => "files"
  | .desktop => "desktop"
  | .viewer => "viewer"
  | .browser => "browser"
  | .desktopApps => "desktop-apps"
  | .development => "development"
  | .office => "office"

def CURATED_PRESETS : List Preset := [.fileSystem,.browser,.computer,.workstation]

def CONFIG_PRESETS : List ConfigPreset := CURATED_PRESETS.map .curated++[.custom]

def presetCodec : Codec Preset := .enum CURATED_PRESETS presetText fun a => by cases a <;> decide

def configPresetCodec : Codec ConfigPreset := .enum CONFIG_PRESETS configPresetText fun a => by
  cases a with
  | curated preset => cases preset <;> decide
  | custom => decide

def capabilityCodec : Codec Capability := .enum capabilityIds capabilityText fun a => by cases a <;> decide

def imageIdentityShape : Shape ImageIdentity :=
  ((Shape.required "requested" .string).both <| (Shape.required "resolved" .string).both <|
    (Shape.optional "contentId" .string).both <| Shape.optional "manifestSha256" .string).as
      (fun (requested,resolved,contentId,manifestSha256) => { requested, resolved, contentId, manifestSha256 })
      (fun image => (image.requested,image.resolved,image.contentId,image.manifestSha256)) fun _ => rfl

def imageIdentityCodec : Codec ImageIdentity := .strictObject imageIdentityShape (by decide)

/-- `ImageIdentitySchema.omit({ manifestSha256: true })` -/
structure GatewayImageIdentity where
  requested : String
  resolved : String
  contentId : Option String
  deriving DecidableEq, Repr

def GatewayImageIdentity.identity (image : GatewayImageIdentity) : ImageIdentity :=
  { requested := image.requested, resolved := image.resolved, contentId := image.contentId, manifestSha256 := none }

def gatewayImageCodec : Codec GatewayImageIdentity :=
  .strictObject
    (((Shape.required "requested" .string).both <| (Shape.required "resolved" .string).both <|
      Shape.optional "contentId" .string).as (fun (requested,resolved,contentId) => { requested, resolved, contentId })
        (fun image => (image.requested,image.resolved,image.contentId)) fun _ => rfl) (by decide)

structure ManifestGatewayConfig where
  port : ℕ
  image : GatewayImageIdentity
  viewerReconnectGraceSeconds : Option ℕ
  deriving DecidableEq, Repr

def manifestGatewayShape : Shape ManifestGatewayConfig :=
  ((Shape.required "port" .natural).both <| (Shape.required "image" gatewayImageCodec).both <|
    Shape.optional "viewerReconnectGraceSeconds" .natural).as
      (fun (port,image,viewerReconnectGraceSeconds) => { port, image, viewerReconnectGraceSeconds })
      (fun gateway => (gateway.port,gateway.image,gateway.viewerReconnectGraceSeconds)) fun _ => rfl

def manifestGatewayCodec : Codec ManifestGatewayConfig := .strictObject manifestGatewayShape (by decide)

/- `contractFields` -/
def computerDefaultsShape : Shape ComputerDefaults :=
  ((Shape.required "preset" configPresetCodec).both <| (Shape.required "compatibility" presetCodec).both <|
    (Shape.required "image" imageIdentityCodec).both <| (Shape.required "capabilityContractVersion" .natural).both <|
    (Shape.required "capabilities" capabilityCodec.array).both <| (Shape.required "cpus" .number).both <|
    Shape.required "memory" .string).as
      (fun (preset,compatibility,image,capabilityContractVersion,capabilities,cpus,memory) =>
        { preset, compatibility, image, capabilityContractVersion, capabilities, cpus, memory })
      (fun value => (value.preset,value.compatibility,value.image,value.capabilityContractVersion,value.capabilities,
        value.cpus,value.memory)) fun _ => rfl

def computerDefaultsCodec : Codec ComputerDefaults := .strictObject computerDefaultsShape (by decide)

def softwareRecipeCodec : Codec SoftwareRecipe :=
  .strictObject
    (((Shape.required "baseImage" .string).both <| (Shape.optional "basePreset" presetCodec).both <|
      (Shape.optional "baseIdentity" imageIdentityCodec).both <| Shape.required "aptPackages" (.array .string)).as
        (fun (baseImage,basePreset,baseIdentity,aptPackages) => { baseImage, basePreset, baseIdentity, aptPackages })
        (fun recipe => (recipe.baseImage,recipe.basePreset,recipe.baseIdentity,recipe.aptPackages)) fun _ => rfl)
    (by decide)

structure ManifestComputer extends ComputerDefaults where
  name : String
  software : Option SoftwareRecipe
  deriving DecidableEq, Repr

/- `manifestComputerFields` -/
def manifestComputerShape : Shape ManifestComputer :=
  ((Shape.required "name" .string).both <| (Shape.required "preset" configPresetCodec).both <|
    (Shape.required "compatibility" presetCodec).both <| (Shape.required "image" imageIdentityCodec).both <|
    (Shape.required "capabilityContractVersion" .natural).both <| (Shape.required "capabilities" capabilityCodec.array).both <|
    (Shape.optional "software" softwareRecipeCodec).both <| (Shape.required "cpus" .number).both <|
    Shape.required "memory" .string).as
      (fun (name,preset,compatibility,image,capabilityContractVersion,capabilities,software,cpus,memory) =>
        { name, preset, compatibility, image, capabilityContractVersion, capabilities, software, cpus, memory })
      (fun value => (value.name,value.preset,value.compatibility,value.image,value.capabilityContractVersion,
        value.capabilities,value.software,value.cpus,value.memory)) fun _ => rfl

def manifestComputerCodec : Codec ManifestComputer := .strictObject manifestComputerShape (by decide)

structure QubiclManifest where
  version : ℕ
  gateway : ManifestGatewayConfig
  defaults : ComputerDefaults
  computers : List ManifestComputer
  deriving DecidableEq, Repr

def manifestShape : Shape QubiclManifest :=
  ((Shape.required "version" .natural).both <| (Shape.required "gateway" manifestGatewayCodec).both <|
    (Shape.required "defaults" computerDefaultsCodec).both <| Shape.required "computers" manifestComputerCodec.array).as
      (fun (version,gateway,defaults,computers) => { version, gateway, defaults, computers })
      (fun manifest => (manifest.version,manifest.gateway,manifest.defaults,manifest.computers)) fun _ => rfl

def manifestCodec : Codec QubiclManifest := .strictObject manifestShape (by decide)

def manifestGatewayFields (value : ManifestGatewayConfig) : Bool :=
  within 1 65535 value.port && imageIdentitySchema value.image.identity &&
    value.viewerReconnectGraceSeconds.all (within 5 300)

def manifestComputerSchema : Schema ManifestComputer where
  parse value :=
    if namePattern value.name && value.software.all softwareRecipeSchema then do
      let contract ← contractSchema.parse value.toComputerDefaults
      if (validateContract contract).isEmpty then some { value with toComputerDefaults := contract } else none
    else none
  stable {x y} h := by
    simp only [bind_eq_bind,bind_eq_some_iff,ite_none_right_eq_some,Option.some.injEq] at h
    obtain ⟨hfields,contract,hcontract,hvalid,rfl⟩ := h
    rw [if_pos hfields]
    simp only [contractSchema.stable hcontract,bind_eq_bind,bind_some,hvalid,if_true]

def manifestSchema : Schema QubiclManifest where
  parse value :=
    if value.version=2 ∧ manifestGatewayFields value.gateway=true then do
      let defaults ← computerDefaultsSchema.parse value.defaults
      let computers ← manifestComputerSchema.array.parse value.computers
      some { value with defaults, computers }
    else none
  stable {x y} h := by
    simp only [bind_eq_bind,bind_eq_some_iff,ite_none_right_eq_some,Option.some.injEq] at h
    obtain ⟨hfields,defaults,hdefaults,computers,hcomputers,rfl⟩ := h
    rw [if_pos hfields]
    simp only [Schema.stable _ hdefaults,Schema.stable _ hcomputers,bind_eq_bind,bind_some]

/-- `ManifestSchema.parse` -/
def ManifestSchema (value : Json) : Option QubiclManifest := (manifestCodec.read value).bind manifestSchema.parse

/- The object literal of a computer, in which `software` is last. -/
def exportedComputer (computer : ComputerConfig) : Json :=
  .object (properties [("name",some (.string computer.name)),("preset",some (configPresetCodec.write computer.preset)),
    ("compatibility",some (presetCodec.write computer.compatibility)),
    ("image",some (imageIdentityCodec.write computer.image)),
    ("capabilityContractVersion",some (Codec.natural.write computer.capabilityContractVersion)),
    ("capabilities",some (capabilityCodec.array.write computer.capabilities)),("cpus",some (.number computer.cpus)),
    ("memory",some (.string computer.memory)),("software",computer.software.map softwareRecipeCodec.write)])

def manifestFromConfig (config : QubiclConfig) : Option QubiclManifest :=
  ManifestSchema (.object [("version",Codec.natural.write 2),
    ("gateway",.object (properties [("port",some (Codec.natural.write config.gateway.port)),
      ("image",some (imageIdentityCodec.write config.gateway.image)),
      ("viewerReconnectGraceSeconds",config.gateway.viewerReconnectGraceSeconds.map Codec.natural.write)])),
    ("defaults",computerDefaultsCodec.write config.defaults),
    ("computers",.array (config.computers.map exportedComputer))])

structure LegacyManifestComputer where
  name : String
  image : Option String
  cpus : Option ℚ
  memory : Option String
  deriving DecidableEq, Repr

structure LegacyManifestV1 where
  version : ℕ
  port : ℕ
  computers : List LegacyManifestComputer
  deriving DecidableEq, Repr

def legacyManifestCodec : Codec LegacyManifestV1 :=
  .strictObject
    (((Shape.required "version" .natural).both <|
      (Shape.required "gateway" (.strictObject (Shape.required "port" .natural) (by decide))).both <|
      Shape.required "computers" (.array (.strictObject
        (((Shape.required "name" .string).both <| (Shape.optional "image" .string).both <|
          (Shape.optional "cpus" .number).both <| Shape.optional "memory" .string).as
            (fun (name,image,cpus,memory) => { name, image, cpus, memory })
            (fun value => (value.name,value.image,value.cpus,value.memory)) fun _ => rfl) (by decide)))).as
        (fun (version,port,computers) => { version, port, computers })
        (fun value => (value.version,value.port,value.computers)) fun _ => rfl) (by decide)

def legacyManifestV1Schema (value : LegacyManifestV1) : Bool :=
  value.version == 1 && within 1 65535 value.port && value.computers.all fun computer =>
    namePattern computer.name && computer.image.all (· != "") && computer.cpus.all (fun cpus => decide (0<cpus)) &&
      computer.memory.all legacyMemory

section
variable (b : Build)

def migrateManifestComputer (fallback : QubiclConfig) (computer : LegacyManifestComputer) : Option ManifestComputer :=
  let cpus:=computer.cpus.getD fallback.defaults.cpus
  let memory:=computer.memory.getD fallback.defaults.memory
  match computer.image with
  | some image => (legacyContract b image cpus memory).map fun contract =>
    { toComputerDefaults := contract, name := computer.name, software := none }
  | none => some
    { toComputerDefaults := { fallback.defaults with cpus, memory }, name := computer.name, software := none }

structure ParsedManifest where
  manifest : QubiclManifest
  migrated : Bool
  deriving DecidableEq, Repr

def migrateManifest (legacy : LegacyManifestV1) (fallback : QubiclConfig) : Option QubiclManifest := do
  let computers ← legacy.computers.mapM (migrateManifestComputer b fallback)
  ManifestSchema (.object [("version",Codec.natural.write 2),
    ("gateway",.object [("port",Codec.natural.write legacy.port),
      ("image",imageIdentityCodec.write fallback.gateway.image)]),
    ("defaults",computerDefaultsCodec.write fallback.defaults),
    ("computers",.array (computers.map manifestComputerCodec.write))])

def parseManifestDocument (value : Json) (fallback : QubiclConfig) : Option ParsedManifest :=
  match ManifestSchema value with
  | some manifest => some { manifest, migrated := false }
  | none => do
    let legacy ← legacyManifestCodec.read value
    if legacyManifestV1Schema legacy then
      (migrateManifest b legacy fallback).map fun manifest => { manifest, migrated := true }
    else none

end
end Qubicl.Core
