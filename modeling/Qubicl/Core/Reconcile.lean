import Qubicl.Core.LegacyJournal
import Qubicl.Core.Manifest
import Qubicl.Foundation.JsonText

/-!
# Reconciling a configuration with a manifest (packages/core/src/config.ts:943-953, 1037-1076)

The comparisons are of texts, so that they depend on the order in which fields are written and on what is left out.
-/

namespace Qubicl.Core
open Foundation List

structure ManifestReconciliation where
  creates : List ManifestComputer
  updates : List ManifestComputer
  trashes : List ComputerConfig
  gatewayChanged : Bool
  defaultsChanged : Bool
  deriving DecidableEq, Repr

def ManifestReconciliation.nothing : ManifestReconciliation :=
  { creates := [], updates := [], trashes := [], gatewayChanged := false, defaultsChanged := false }

def comparable (name : String) (value : ComputerDefaults) (software : Option SoftwareRecipe) : Json :=
  .object (properties [("name",some (.string name)),("preset",some (configPresetCodec.write value.preset)),
    ("compatibility",some (presetCodec.write value.compatibility)),("image",some (imageIdentityCodec.write value.image)),
    ("capabilityContractVersion",some (Codec.natural.write value.capabilityContractVersion)),
    ("capabilities",some (capabilityCodec.array.write value.capabilities)),("cpus",some (.number value.cpus)),
    ("memory",some (.string value.memory)),("software",software.map softwareRecipeCodec.write)])

/-- The first name that was declared before. -/
def declaredTwice : List String → List String → Option String
  | _, [] => none
  | names, name::rest => if name ∈ names then some name else declaredTwice (name::names) rest

def gatewayJson (gateway : GatewayConfig) : Json :=
  .object (properties [("port",some (Codec.natural.write gateway.port)),("image",some (imageIdentityCodec.write gateway.image)),
    ("viewerReconnectGraceSeconds",gateway.viewerReconnectGraceSeconds.map Codec.natural.write)])

/- A manifest that declares no grace period leaves that of the configuration. -/
def declaredGateway (config : QubiclConfig) (gateway : ManifestGatewayConfig) : Json :=
  (manifestGatewayCodec.write gateway).assign (properties [("viewerReconnectGraceSeconds",
    (gateway.viewerReconnectGraceSeconds.or config.gateway.viewerReconnectGraceSeconds).map Codec.natural.write)])

section
variable (numberText : ℚ → List Char)

/-- `JSON.stringify` -/
def stringify (value : Json) : List Char := value.write numberText

def declaredOtherwise (config : QubiclConfig) (declared : ManifestComputer) : Bool :=
  match config.computers.find? fun computer => computer.name=declared.name with
  | none => false
  | some current =>
    stringify numberText (comparable current.name current.toComputerDefaults current.software) ≠
      stringify numberText (comparable declared.name declared.toComputerDefaults declared.software)

def reconcileManifest (config : QubiclConfig) (manifest : QubiclManifest) (prune : Bool) : Except String ManifestReconciliation :=
  let names:=manifest.computers.map (·.name)
  match declaredTwice [] names with
  | some name => .error ("Manifest declares " ++ name ++ " more than once.")
  | none => .ok {
      creates := manifest.computers.filter fun declared => !config.computers.any fun computer => computer.name=declared.name
      updates := manifest.computers.filter (declaredOtherwise numberText config)
      trashes := if prune then config.computers.filter fun computer => computer.name ∉ names else []
      gatewayChanged := stringify numberText (gatewayJson config.gateway) ≠
        stringify numberText (declaredGateway config manifest.gateway)
      defaultsChanged := stringify numberText (computerDefaultsCodec.write config.defaults) ≠
        stringify numberText (computerDefaultsCodec.write manifest.defaults) }

end

theorem declaredTwice_eq_none {names seen : List String} :
    declaredTwice seen names=none ↔ names.Nodup ∧ ∀ name ∈ names, name ∉ seen := by
  induction names generalizing seen with
  | nil => simp [declaredTwice]
  | cons name rest ih =>
    rw [declaredTwice,nodup_cons]
    split
    · refine iff_of_false (by simp) ?_
      rintro ⟨-,hfre⟩
      exact hfre name mem_cons_self (by assumption)
    · rename_i hnew
      rw [ih]
      constructor
      · rintro ⟨hnod,hfre⟩
        refine ⟨⟨fun hmem => hfre name hmem mem_cons_self,hnod⟩,?_⟩
        intro other hother
        rcases mem_cons.1 hother with rfl | hother
        · exact hnew
        · exact fun hseen => hfre other hother (mem_cons_of_mem _ hseen)
      · rintro ⟨⟨hnam,hnod⟩,hfre⟩
        refine ⟨hnod,?_⟩
        intro other hother hseen
        rcases mem_cons.1 hseen with rfl | hseen
        · exact hnam hother
        · exact hfre other (mem_cons_of_mem _ hother) hseen

section
variable {numberText : ℚ → List Char} {config config' : QubiclConfig} {manifest : QubiclManifest} {prune : Bool}

theorem reconcileManifest_nothing (hnam : (manifest.computers.map (·.name)).Nodup)
    (hthe : ∀ declared ∈ manifest.computers, ∃ computer ∈ config.computers, computer.name=declared.name)
    (hsam : ∀ declared ∈ manifest.computers, ∀ computer ∈ config.computers, computer.name=declared.name →
      stringify numberText (comparable computer.name computer.toComputerDefaults computer.software) =
        stringify numberText (comparable declared.name declared.toComputerDefaults declared.software))
    (honl : ∀ computer ∈ config.computers, computer.name ∈ manifest.computers.map (·.name))
    (hgat : gatewayJson config.gateway=declaredGateway config manifest.gateway)
    (hdef : config.defaults=manifest.defaults) :
    reconcileManifest numberText config manifest prune=.ok .nothing := by
  have hcre : (manifest.computers.filter fun declared =>
      !config.computers.any fun computer => computer.name=declared.name)=[] := by
    rw [filter_eq_nil_iff]
    intro declared hdec
    obtain ⟨computer,hcom,hnae⟩ := hthe declared hdec
    have hany : (config.computers.any fun computer => computer.name=declared.name)=true :=
      any_eq_true.2 ⟨computer,hcom,by simpa using hnae⟩
    simp [hany]
  have hupd : manifest.computers.filter (declaredOtherwise numberText config)=[] := by
    rw [filter_eq_nil_iff]
    intro declared hdec
    unfold declaredOtherwise
    cases hfin : config.computers.find? fun computer => computer.name=declared.name with
    | none => simp
    | some current =>
      have hnae : current.name=declared.name := by simpa using find?_some hfin
      have htex:=hsam declared hdec current (mem_of_find?_eq_some hfin) hnae
      simp [htex]
  have htra : (config.computers.filter fun computer => computer.name ∉ manifest.computers.map (·.name))=[] := by
    rw [filter_eq_nil_iff]
    intro computer hcom
    simpa using honl computer hcom
  have honc : declaredTwice [] (manifest.computers.map (·.name))=none := declaredTwice_eq_none.2 ⟨hnam,by simp⟩
  unfold reconcileManifest
  simp only [honc,hcre,hupd,htra,hgat,hdef]
  simp [ManifestReconciliation.nothing]

end

def declared (computer : ComputerConfig) : ManifestComputer :=
  { toComputerDefaults := computer.toComputerDefaults, name := computer.name, software := computer.software }

/-- What `manifestFromConfig` returns. -/
def exported (config : QubiclConfig) : QubiclManifest where
  version := 2
  gateway := {
    port := config.gateway.port
    image := {
      requested := config.gateway.image.requested
      resolved := config.gateway.image.resolved
      contentId := config.gateway.image.contentId }
    viewerReconnectGraceSeconds := config.gateway.viewerReconnectGraceSeconds }
  defaults := config.defaults
  computers := config.computers.map declared

theorem gatewayImage_write (image : GatewayImageIdentity) :
    gatewayImageCodec.write image=imageIdentityCodec.write image.identity := rfl

theorem read_exportedComputer (computer : ComputerConfig) :
    manifestComputerCodec.read (exportedComputer computer)=some (declared computer) := by
  refine Codec.readStrict_object (by decide) ?_
  -- the two objects differ in the place of `software`
  refine List.Perm.cons _ (List.Perm.cons _ (List.Perm.cons _ (List.Perm.cons _ (List.Perm.cons _ (List.Perm.cons _ ?_)))))
  exact (List.Perm.cons _ (List.Perm.swap _ _ _)).trans (List.Perm.swap _ _ _)

theorem read_exportedComputers (computers : List ComputerConfig) :
    manifestComputerCodec.array.read (.array (computers.map exportedComputer))=some (computers.map declared) := by
  induction computers with
  | nil => rfl
  | cons computer computers ih =>
    have hcon : (exportedComputer computer::computers.map exportedComputer).mapM manifestComputerCodec.read =
        some (declared computer::computers.map declared) := by
      have hres : (computers.map exportedComputer).mapM manifestComputerCodec.read=some (computers.map declared) := ih
      rw [mapM_cons,read_exportedComputer,hres]
      rfl
    exact hcon

section
variable {z : Formats} {version : ℕ} {x config : QubiclConfig}

theorem configSchema_gateway (h : (configSchema z version).parse x=some config) :
    gatewayFields z config.gateway=true ∧ ∃ seconds, config.gateway.viewerReconnectGraceSeconds=some seconds := by
  have hsta:=(configSchema z version).stable h
  simp only [configSchema,Option.bind_eq_bind,Option.bind_eq_some_iff,Option.ite_none_left_eq_some,
    Option.ite_none_right_eq_some,Option.some.injEq] at hsta
  obtain ⟨-,gateway,hgat,defaults,-,computers,-,-,heq⟩ := hsta
  obtain ⟨hfie,hfil⟩ := Option.ite_none_right_eq_some.1 hgat
  have hsam : gateway=config.gateway := congrArg QubiclConfig.gateway heq
  rw [hsam] at hfil
  exact ⟨hfie,_,(congrArg GatewayConfig.viewerReconnectGraceSeconds (Option.some.inj hfil)).symm⟩

theorem configSchema_parts (h : (configSchema z version).parse x=some config) :
    computerDefaultsSchema.parse config.defaults=some config.defaults ∧
      ∀ computer ∈ config.computers, (computerConfigSchema z).parse computer=some computer := by
  simp only [configSchema,Option.bind_eq_bind,Option.bind_eq_some_iff,Option.ite_none_left_eq_some,
    Option.ite_none_right_eq_some,Option.some.injEq] at h
  obtain ⟨-,gateway,-,defaults,hdef,computers,hcom,-,rfl⟩ := h
  refine ⟨computerDefaultsSchema.stable hdef,?_⟩
  intro computer hmem
  obtain ⟨raw,-,hpar⟩ := forall₂_mem_right (Schema.parse_array_forall₂.1 hcom) hmem
  exact (computerConfigSchema z).stable hpar

theorem declared_normal {computer : ComputerConfig} (h : (computerConfigSchema z).parse computer=some computer) :
    manifestComputerSchema.parse (declared computer)=some (declared computer) := by
  simp only [computerConfigSchema,Option.bind_eq_bind,Option.bind_eq_some_iff,Option.ite_none_left_eq_some,
    Option.ite_none_right_eq_some,Option.some.injEq] at h
  obtain ⟨hfie,contract,hcon,network,-,skillPolicy,-,hval,heq⟩ := h
  have hsam : contract=computer.toComputerDefaults := congrArg ComputerConfig.toComputerDefaults heq
  rw [hsam] at hcon
  have hpla : namePattern computer.name=true ∧ computer.software.all softwareRecipeSchema=true := by
    simp only [computerFields,plainFields,Bool.not_eq_true,Bool.not_eq_false',Bool.and_eq_true] at hfie
    tauto
  have hiss : validateContract computer.toComputerDefaults=[] := by
    rw [heq] at hval
    exact (append_eq_nil_iff.1 (List.isEmpty_iff.1 hval)).1
  have hche : (namePattern (declared computer).name && (declared computer).software.all softwareRecipeSchema)=true := by
    rw [Bool.and_eq_true]
    exact hpla
  have hpar : contractSchema.parse (declared computer).toComputerDefaults=some computer.toComputerDefaults := hcon
  simp only [manifestComputerSchema]
  rw [if_pos hche,hpar,Option.bind_eq_bind,Option.bind_some,if_pos (by rw [hiss]; rfl)]
  rfl

theorem exported_normal (h : (configSchema z version).parse x=some config) :
    manifestSchema.parse (exported config)=some (exported config) := by
  obtain ⟨hgat,-⟩ := configSchema_gateway h
  obtain ⟨hdef,hcom⟩ := configSchema_parts h
  have hfie : manifestGatewayFields (exported config).gateway=true := by
    simp only [gatewayFields,Bool.and_eq_true,imageIdentitySchema] at hgat
    obtain ⟨⟨⟨⟨⟨hpor,hima⟩,-⟩,hsec⟩,-⟩,-⟩ := hgat
    simp only [manifestGatewayFields,exported,Bool.and_eq_true,imageIdentitySchema,GatewayImageIdentity.identity]
    exact ⟨⟨hpor,⟨hima.1,rfl⟩⟩,hsec⟩
  have harr : manifestComputerSchema.array.parse (config.computers.map declared)=some (config.computers.map declared) := by
    refine Schema.array_normal.2 ?_
    intro computer hmem
    obtain ⟨source,hsou,rfl⟩ := mem_map.1 hmem
    exact declared_normal (hcom source hsou)
  simp only [manifestSchema]
  rw [if_pos ⟨rfl,hfie⟩]
  have hdef' : computerDefaultsSchema.parse (exported config).defaults=some config.defaults := hdef
  have harr' : manifestComputerSchema.array.parse (exported config).computers=some (config.computers.map declared) := harr
  rw [hdef',harr']
  rfl

theorem manifestFromConfig_eq (h : (configSchema z version).parse x=some config) :
    manifestFromConfig config=some (exported config) := by
  obtain ⟨hgat,-⟩ := configSchema_gateway h
  have hima : config.gateway.image.manifestSha256=none := by
    simp only [gatewayFields,Bool.and_eq_true] at hgat
    exact Option.isNone_iff_eq_none.1 (by tauto)
  have hide : config.gateway.image=(exported config).gateway.image.identity := by
    cases hima' : config.gateway.image with
    | mk requested resolved contentId manifestSha256 =>
      rw [hima'] at hima
      obtain rfl : manifestSha256=none := hima
      simp [exported,GatewayImageIdentity.identity,hima']
  have hwri : imageIdentityCodec.write config.gateway.image=gatewayImageCodec.write (exported config).gateway.image := by
    rw [gatewayImage_write,← hide]
  unfold manifestFromConfig ManifestSchema
  rw [hwri]
  have hgatewayRead:=manifestGatewayCodec.read_write (exported config).gateway
  have hrea : manifestCodec.read (.object [("version",Codec.natural.write 2),
      ("gateway",manifestGatewayCodec.write (exported config).gateway),
      ("defaults",computerDefaultsCodec.write config.defaults),
      ("computers",.array (config.computers.map exportedComputer))])=some (exported config) := by
    have hfie : manifestShape.read (fun key => List.lookup key [("version",Codec.natural.write 2),
        ("gateway",manifestGatewayCodec.write (exported config).gateway),
        ("defaults",computerDefaultsCodec.write config.defaults),
        ("computers",Json.array (config.computers.map exportedComputer))])=some (exported config) :=
      Shape.read_as (Shape.read_both (Shape.read_required rfl (Codec.natural.read_write 2))
        (Shape.read_both (Shape.read_required rfl hgatewayRead)
          (Shape.read_both (Shape.read_required rfl (computerDefaultsCodec.read_write _))
            (Shape.read_required rfl (read_exportedComputers config.computers)))))
    exact hfie
  exact (congrArg (fun manifest => manifest.bind manifestSchema.parse) hrea).trans (exported_normal h)

end

theorem gatewayJson_exported (config : QubiclConfig) (h : config.gateway.image.manifestSha256=none)
    (hsec : ∃ seconds, config.gateway.viewerReconnectGraceSeconds=some seconds) :
    gatewayJson config.gateway=declaredGateway config (exported config).gateway := by
  obtain ⟨seconds,hsec⟩ := hsec
  cases hgat : config.gateway with
  | mk port image viewer exposure =>
    rw [hgat] at h hsec
    obtain ⟨requested,resolved,contentId,manifestSha256⟩ := image
    obtain rfl : manifestSha256=none := h
    obtain rfl : viewer=some seconds := hsec
    unfold declaredGateway gatewayJson exported
    rw [hgat]
    rfl

def replaceDeclared (updates : List ManifestComputer) (computer : ComputerConfig) : ComputerConfig :=
  match updates.find? fun declared => declared.name=computer.name with
  | none => computer
  | some declared => { computer with toComputerDefaults := declared.toComputerDefaults, software := declared.software }

/-- A configuration after the changes. The created computers have what is declared and may have anything else. -/
structure Applied (config : QubiclConfig) (manifest : QubiclManifest) (changes : ManifestReconciliation)
    (config' : QubiclConfig) : Prop where
  gateway : config'.gateway = { config.gateway with
    port := manifest.gateway.port
    image := manifest.gateway.image.identity
    viewerReconnectGraceSeconds :=
      manifest.gateway.viewerReconnectGraceSeconds.or config.gateway.viewerReconnectGraceSeconds }
  defaults : config'.defaults=manifest.defaults
  computers : ∃ created : List ComputerConfig, created.map declared=changes.creates ∧
    config'.computers.Perm
      ((config.computers.filter fun computer => computer ∉ changes.trashes).map (replaceDeclared changes.updates)++created)

theorem replaceDeclared_name (updates : List ManifestComputer) (computer : ComputerConfig) :
    (replaceDeclared updates computer).name=computer.name := by
  unfold replaceDeclared
  split <;> rfl

theorem gatewayJson_applied {config config' : QubiclConfig} {gateway : ManifestGatewayConfig}
    (h : config'.gateway = { config.gateway with
      port := gateway.port
      image := gateway.image.identity
      viewerReconnectGraceSeconds := gateway.viewerReconnectGraceSeconds.or config.gateway.viewerReconnectGraceSeconds }) :
    gatewayJson config'.gateway=declaredGateway config' gateway := by
  obtain ⟨port,image,viewer⟩ := gateway
  unfold declaredGateway gatewayJson
  rw [h]
  cases viewer with
  | none =>
    cases hvie : config.gateway.viewerReconnectGraceSeconds with
    | none => rfl
    | some seconds => rfl
  | some seconds => rfl

section
variable {numberText : ℚ → List Char} {config config' : QubiclConfig} {manifest : QubiclManifest}
  {changes : ManifestReconciliation}

theorem eq_of_name {α : Type} {name : α → String} {items : List α} (h : (items.map name).Nodup) {a b : α} (ha : a ∈ items)
    (hb : b ∈ items) (hnam : name a=name b) : a=b :=
  inj_on_of_nodup_map h ha hb hnam

theorem reconcileManifest_ok (hnam : (manifest.computers.map (·.name)).Nodup) (prune : Bool) :
    ∃ changes, reconcileManifest numberText config manifest prune=.ok changes := by
  have honc : declaredTwice [] (manifest.computers.map (·.name))=none := declaredTwice_eq_none.2 ⟨hnam,by simp⟩
  unfold reconcileManifest
  simp only [honc]
  exact ⟨_,rfl⟩

theorem reconcileManifest_applied (hcon : (config.computers.map (·.name)).Nodup)
    (hnam : (manifest.computers.map (·.name)).Nodup)
    (hcha : reconcileManifest numberText config manifest true=.ok changes) (happ : Applied config manifest changes config') :
    reconcileManifest numberText config' manifest true=.ok .nothing := by
  have honc : declaredTwice [] (manifest.computers.map (·.name))=none := declaredTwice_eq_none.2 ⟨hnam,by simp⟩
  unfold reconcileManifest at hcha
  simp only [honc] at hcha
  obtain rfl := Except.ok.inj hcha
  obtain ⟨created,hcrd,hper⟩ := happ.computers
  simp only [if_true] at hcrd hper
  -- a computer is one that was kept, with a name that is declared, or one that was created
  have hmem : ∀ computer, computer ∈ config'.computers ↔
      (∃ before ∈ config.computers, before.name ∈ manifest.computers.map (·.name) ∧
        replaceDeclared (manifest.computers.filter (declaredOtherwise numberText config)) before=computer) ∨
      computer ∈ created := by
    intro computer
    rw [hper.mem_iff,mem_append,mem_map]
    refine or_congr_left (exists_congr fun before => ?_)
    simp only [mem_filter,decide_not,Bool.not_eq_true',decide_eq_false_iff_not]
    tauto
  have hcre : ∀ computer ∈ created, declared computer ∈ manifest.computers := by
    intro computer hcom
    have hin : declared computer ∈ created.map declared := mem_map_of_mem hcom
    rw [hcrd] at hin
    exact mem_of_mem_filter hin
  refine reconcileManifest_nothing hnam ?_ ?_ ?_ (gatewayJson_applied happ.gateway) happ.defaults
  · intro entry hent
    by_cases hthe : ∃ computer ∈ config.computers, computer.name=entry.name
    · obtain ⟨computer,hcom,hnae⟩ := hthe
      refine ⟨_,(hmem _).2 (.inl ⟨computer,hcom,?_,rfl⟩),by rw [replaceDeclared_name,hnae]⟩
      exact mem_map.2 ⟨entry,hent,hnae.symm⟩
    · have hfil : entry ∈ created.map declared := by
        rw [hcrd,mem_filter]
        refine ⟨hent,?_⟩
        simpa using hthe
      obtain ⟨computer,hcom,hsam⟩ := mem_map.1 hfil
      exact ⟨computer,(hmem computer).2 (.inr hcom),by rw [← hsam]; rfl⟩
  · intro entry hent computer hcom hnae
    rcases (hmem computer).1 hcom with ⟨before,hbef,-,rfl⟩ | hnew
    · rw [replaceDeclared_name] at hnae
      unfold replaceDeclared
      cases hfin : (manifest.computers.filter (declaredOtherwise numberText config)).find? fun entry =>
          entry.name=before.name with
      | some found =>
        -- the update of a name is the declaration of the name
        have hfou:=mem_of_mem_filter (mem_of_find?_eq_some hfin)
        have hfoundName : found.name=before.name := by simpa using find?_some hfin
        obtain rfl := eq_of_name hnam hfou hent (hfoundName.trans hnae)
        simp only [hnae]
      | none =>
        have hnot : declaredOtherwise numberText config entry=false := by
          by_contra hoth
          rw [find?_eq_none] at hfin
          exact hfin entry (mem_filter.2 ⟨hent,by simpa using hoth⟩) (by simp [hnae])
        unfold declaredOtherwise at hnot
        cases hcur : config.computers.find? fun computer => computer.name=entry.name with
        | none =>
          rw [find?_eq_none] at hcur
          exact absurd hnae (by simpa using hcur before hbef)
        | some current =>
          rw [hcur] at hnot
          have hcurrentName : current.name=entry.name := by simpa using find?_some hcur
          obtain rfl := eq_of_name hcon (mem_of_find?_eq_some hcur) hbef (hcurrentName.trans hnae.symm)
          simpa using hnot
    · obtain rfl := eq_of_name hnam (hcre computer hnew) hent hnae
      rfl
  · intro computer hcom
    rcases (hmem computer).1 hcom with ⟨before,-,hdec,rfl⟩ | hnew
    · rw [replaceDeclared_name]
      exact hdec
    · exact mem_map.2 ⟨declared computer,hcre computer hnew,rfl⟩

end

/-- What is exported from a configuration is read back as it is and asks for no change, and the changes that a manifest asks for
are all that it asks for. -/
theorem manifest_fixed_point (z : Formats) (b : Build) (numberText : ℚ → List Char) (document config : QubiclConfig)
    (h : (configSchema z stateFormatVersion).parse document=some config) :
    (∃ manifest, manifestFromConfig config=some manifest ∧
      ∀ fallback prune, parseManifestDocument b (manifestCodec.write manifest) fallback=some ⟨manifest,false⟩ ∧
        reconcileManifest numberText config manifest prune=.ok .nothing) ∧
    ∀ manifest : QubiclManifest, (manifest.computers.map (·.name)).Nodup →
      ∃ changes, reconcileManifest numberText config manifest true=.ok changes ∧
        ∀ config', Applied config manifest changes config' →
          reconcileManifest numberText config' manifest true=.ok .nothing := by
  have hnam:=(configSchema_named z h).1
  constructor
  · refine ⟨exported config,manifestFromConfig_eq h,?_⟩
    intro fallback prune
    constructor
    · have hpar : ManifestSchema (manifestCodec.write (exported config))=some (exported config) := by
        unfold ManifestSchema
        rw [manifestCodec.read_write,Option.bind_some,exported_normal h]
      rw [parseManifestDocument,hpar]
    · have hdec : (exported config).computers.map (·.name)=config.computers.map (·.name) := by
        simp only [exported,map_map]
        rfl
      obtain ⟨hgat,hsec⟩ := configSchema_gateway h
      have hima : config.gateway.image.manifestSha256=none := by
        simp only [gatewayFields,Bool.and_eq_true] at hgat
        exact Option.isNone_iff_eq_none.1 (by tauto)
      refine reconcileManifest_nothing (by rw [hdec]; exact hnam) ?_ ?_ ?_
        (gatewayJson_exported config hima hsec) rfl
      · intro entry hent
        obtain ⟨computer,hcom,rfl⟩ := mem_map.1 hent
        exact ⟨computer,hcom,rfl⟩
      · intro entry hent computer hcom hnae
        obtain ⟨source,hsou,rfl⟩ := mem_map.1 hent
        obtain rfl := eq_of_name hnam hcom hsou hnae
        rfl
      · intro computer hcom
        rw [hdec]
        exact mem_map_of_mem hcom
  · intro manifest hman
    obtain ⟨changes,hcha⟩ := reconcileManifest_ok hman true
    exact ⟨changes,hcha,fun config' happ => reconcileManifest_applied hnam hman hcha happ⟩

theorem manifest_fixed_point_main :
    ∃ manifest, manifestFromConfig (exampleConfig 5)=some manifest ∧
      parseManifestDocument exampleBuild (manifestCodec.write manifest) (exampleConfig 5)=some ⟨manifest,false⟩ ∧
      reconcileManifest Number.toText (exampleConfig 5) manifest true=.ok .nothing := by
  have hsam : (configSchema exampleFormats stateFormatVersion).parse (exampleConfig 5)=some (exampleConfig 5) := by
    decide +kernel
  obtain ⟨manifest,hexp,hrea⟩ :=
    (manifest_fixed_point exampleFormats exampleBuild Number.toText (exampleConfig 5) (exampleConfig 5) hsam).1
  exact ⟨manifest,hexp,hrea (exampleConfig 5) true⟩

end Qubicl.Core
