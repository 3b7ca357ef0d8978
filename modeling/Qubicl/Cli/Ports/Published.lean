import Qubicl.Cli.Ports.Commands
import Qubicl.Core.LegacyJournal

/-!
# The ports that Compose publishes

A command keeps them different if and only if the port that it brings in is not configured; being
free on the host is not enough.
-/

namespace Qubicl.Cli.Ports
open Foundation Core List

def keptComputers (config : QubiclConfig) (manifest : Manifest) (prune : Bool) : List ComputerConfig :=
  config.computers.filter fun computer => !prune || computer.name ∈ manifest.computers.map (·.name)

/-- The port that a command brings in is not configured for anything that remains. Where the command
chooses, a smaller port that is free and not configured comes before each one that is free only. -/
def Unconfigured (host : Host) : Action → Prop
  | .ssh _ .enable (some port) _ => port ∉ hostPorts host.state.config
  | .ssh _ .enable none _ => ∀ port ∈ hostPorts host.state.config, port ∈ sshPortRange →
      portAvailable host (loopback port)=true → ∃ other ∈ sshPortRange, other<port ∧
        portAvailable host (loopback other)=true ∧ other ∉ hostPorts host.state.config
  | .config requested => ∀ port, requested.gatewayPort=some port → port ∉ sshPorts host.state.config.computers
  | .expose exposure _ => exposure.port ∉ sshPorts host.state.config.computers
  | .apply _ manifest prune _ => manifest.port ∉ sshPorts (keptComputers host.state.config manifest prune)
  | .restore _ name => ∀ found ∈ host.trash, found.name=name ∨ found.id=name →
      ∀ port, sshPort found.toComputerConfig=some port → port ∉ hostPorts host.state.config
  | _ => True

/-- No host port is configured twice. -/
structure Separate (config : QubiclConfig) : Prop where
  ssh : config.computers.Pairwise fun a b => ∀ port, sshPort a=some port → sshPort b≠some port
  gateway : ∀ computer ∈ config.computers, sshPort computer≠some config.gateway.port
  external : ∀ exposure, config.gateway.exposure=some exposure → exposure.port≠config.gateway.port ∧
    ∀ computer ∈ config.computers, sshPort computer≠some exposure.port
  compose : (hostPorts config).Nodup

def gatewayPorts (gateway : GatewayConfig) : List ℕ := gateway.port::(gateway.exposure.map (·.port)).toList

theorem hostPorts_eq (config : QubiclConfig) :
    hostPorts config=gatewayPorts config.gateway++sshPorts config.computers := by
  unfold hostPorts composePorts gatewayPorts
  cases config.gateway.exposure <;> simp [loopback,exposureSocket,Function.comp_def]

def portEntries (computers : List ComputerConfig) : List (String × Option ℕ) :=
  computers.map fun computer => (computer.id,sshPort computer)

theorem sshPorts_eq (computers : List ComputerConfig) : sshPorts computers=(portEntries computers).filterMap (·.2) := by
  unfold sshPorts portEntries
  rw [filterMap_map]
  rfl

variable {xs ys : List ComputerConfig} {config : QubiclConfig} {declared state : LoadedState}
  {defaults : ComputerDefaults} {fresh : FreshValues} {services : ApplyServices}

theorem sshPorts_congr (h : portEntries xs=portEntries ys) : sshPorts xs=sshPorts ys := by
  rw [sshPorts_eq,sshPorts_eq,h]

theorem portEntries_ids (computers : List ComputerConfig) : (portEntries computers).map (·.1)=computers.map (·.id) := by
  unfold portEntries
  rw [map_map]
  rfl

theorem sshPorts_append (xs ys : List ComputerConfig) : sshPorts (xs++ys)=sshPorts xs++sshPorts ys :=
  filterMap_append

theorem sshPorts_cons (computer : ComputerConfig) (rest : List ComputerConfig) :
    sshPorts (computer::rest)=(sshPort computer).toList++sshPorts rest := by
  unfold sshPorts
  cases h : sshPort computer with
  | none => rw [filterMap_cons_none h,Option.toList_none,nil_append]
  | some port => rw [filterMap_cons_some h,Option.toList_some,singleton_append]

theorem mem_sshPorts {computers : List ComputerConfig} {port : ℕ} :
    port ∈ sshPorts computers ↔ ∃ computer ∈ computers, sshPort computer=some port := mem_filterMap

theorem separate_of_nodup (h : (hostPorts config).Nodup) : Separate config := by
  have hall:=h
  rw [hostPorts_eq,nodup_append] at h
  obtain ⟨hgat,hssh,hdis⟩ := h
  have hapa : ∀ port ∈ gatewayPorts config.gateway, ∀ computer ∈ config.computers, sshPort computer≠some port :=
    fun port hpor computer hcom heq => hdis port hpor port (mem_sshPorts.2 ⟨computer,hcom,heq⟩) rfl
  refine ⟨?_,?_,?_,hall⟩
  · have hpai:=pairwise_filterMap.1 hssh
    exact hpai.imp fun hne port ha hb => hne port ha port hb rfl
  · exact hapa _ mem_cons_self
  · intro exposure hexp
    have hmem : exposure.port ∈ gatewayPorts config.gateway := by
      unfold gatewayPorts
      rw [hexp]
      simp
    refine ⟨fun heq => ?_,hapa _ hmem⟩
    unfold gatewayPorts at hgat
    rw [hexp] at hgat
    simp [heq] at hgat

section Saved
variable {z : Formats}

theorem parse_computer {x y : ComputerConfig} (h : (computerConfigSchema z).parse x=some y) :
    y.id=x.id ∧ sshPort y=sshPort x := by
  simp only [computerConfigSchema,Option.bind_eq_bind,Option.bind_eq_some_iff,Option.ite_none_left_eq_some,
    Option.ite_none_right_eq_some,Option.some.injEq] at h
  obtain ⟨-,contract,-,network,-,skillPolicy,-,-,rfl⟩ := h
  exact ⟨rfl,rfl⟩

theorem parse_computers (h : (computerConfigSchema z).array.parse xs=some ys) : portEntries ys=portEntries xs := by
  have hfor:=Schema.parse_array_forall₂.1 h
  unfold portEntries
  induction hfor with
  | nil => rfl
  | cons hhea htai ih =>
    rw [map_cons,map_cons,ih (Schema.parse_array_forall₂.2 htai),(parse_computer hhea).1,
      (parse_computer hhea).2]

/- The state that a transaction saves, and the one it was created for. -/
structure Saved (before after : LoadedState) : Prop where
  port : after.config.gateway.port=before.config.gateway.port
  exposure : after.config.gateway.exposure=before.config.gateway.exposure
  entries : portEntries after.config.computers=portEntries before.config.computers
  ids : (before.config.computers.map (·.id)).Nodup
  apart : (gatewayPorts before.config.gateway).Nodup

theorem saved_of_execute {before after : LoadedState} (h : executeStateTransaction z before=.ok after) :
    Saved before after := by
  unfold executeStateTransaction at h
  split at h
  next config hpar =>
    cases h
    simp only [configSchema,Option.bind_eq_bind,Option.bind_eq_some_iff,Option.ite_none_left_eq_some,
      Option.ite_none_right_eq_some,Option.some.injEq] at hpar
    obtain ⟨-,gateway,hgat,defaults,-,computers,hcom,hval,rfl⟩ := hpar
    simp only [gatewayConfigSchema,Option.ite_none_right_eq_some,Option.some.injEq] at hgat
    obtain ⟨hfie,rfl⟩ := hgat
    have hent:=parse_computers hcom
    refine ⟨rfl,rfl,hent,?_,?_⟩
    · have hids:=validateConfigComputers_nodup (List.isEmpty_iff.1 hval)
      rw [map_map] at hids
      rw [← portEntries_ids,← hent,portEntries_ids]
      exact hids
    · have hiss : validateGateway before.config.gateway=[] := by
        simp only [gatewayFields,Bool.and_eq_true,List.isEmpty_iff] at hfie
        exact hfie.2
      unfold validateGateway at hiss
      unfold gatewayPorts
      cases hexp : before.config.gateway.exposure with
      | none => simp
      | some exposure =>
        rw [hexp] at hiss
        by_cases heq : exposure.port=before.config.gateway.port
        · simp [heq] at hiss
        · simp [Ne.symm heq]
  next => cases h

variable {before after : LoadedState}

theorem Saved.gatewayPorts_eq (h : Saved before after) :
    gatewayPorts after.config.gateway=gatewayPorts before.config.gateway := by
  unfold gatewayPorts
  rw [h.port,h.exposure]

theorem Saved.hostPorts_eq (h : Saved before after) : hostPorts after.config=hostPorts before.config := by
  rw [Ports.hostPorts_eq,Ports.hostPorts_eq,h.gatewayPorts_eq,sshPorts_congr h.entries]

theorem Saved.nodup_iff (h : Saved before after) (hssh : (sshPorts before.config.computers).Nodup) :
    (hostPorts after.config).Nodup ↔
      ∀ port ∈ gatewayPorts before.config.gateway, port ∉ sshPorts before.config.computers := by
  rw [h.hostPorts_eq,Ports.hostPorts_eq,nodup_append]
  constructor
  · rintro ⟨-,-,hdis⟩ port hpor hmem
    exact hdis port hpor port hmem rfl
  · rintro hdis
    refine ⟨h.apart,hssh,?_⟩
    rintro a ha b hb rfl
    exact hdis a ha hb

end Saved

section Replaced
variable {computers : List ComputerConfig} {computer : ComputerConfig}

theorem replaceComputer_ids : (replaceComputer computers computer).map (·.id)=computers.map (·.id) := by
  unfold replaceComputer
  rw [map_map]
  refine map_congr_left fun old _ => ?_
  by_cases h : old.id=computer.id
  · simp [h]
  · simp [h]

section
variable (hids : (computers.map (·.id)).Nodup) {current : ComputerConfig} (hmem : current ∈ computers)
   (hid : computer.id=current.id)
include hids hmem hid

theorem portEntries_replaceComputer (hpor : sshPort computer=sshPort current) :
    portEntries (replaceComputer computers computer)=portEntries computers := by
  unfold portEntries replaceComputer
  rw [map_map]
  refine map_congr_left fun old hold => ?_
  by_cases h : old.id=computer.id
  · have heq : old=current := inj_on_of_nodup_map hids hold hmem (h.trans hid)
    simp [heq,hid,hpor]
  · simp [h]

theorem replaceComputer_split : ∃ front rest,
      computers=front++current::rest ∧ replaceComputer computers computer=front++computer::rest := by
  obtain ⟨front,rest,rfl⟩ := append_of_mem hmem
  refine ⟨front,rest,rfl,?_⟩
  have hkee : ∀ others : List ComputerConfig, current.id ∉ others.map (·.id) →
      replaceComputer others computer=others := by
    intro others hnot
    unfold replaceComputer
    conv => rhs; rw [← map_id others]
    refine map_congr_left fun old hold => ?_
    have hne : old.id≠computer.id := fun heq => hnot (mem_map.2 ⟨old,hold,heq.trans hid⟩)
    simp [hne]
  rw [map_append,map_cons,nodup_middle,nodup_cons,mem_append,not_or] at hids
  obtain ⟨⟨hfro,hres⟩,-⟩ := hids
  have happ : replaceComputer (front++current::rest) computer =
      replaceComputer front computer++computer::replaceComputer rest computer := by
    unfold replaceComputer
    simp [hid]
  rw [happ,hkee front hfro,hkee rest hres]

end

end Replaced

theorem mem_of_findComputer {host : Host} {name : String} {computer : ComputerConfig}
    (h : findComputer host name=.ok computer) : computer ∈ host.state.config.computers := by
  unfold findComputer at h
  split at h
  next found hfin =>
    cases h
    exact mem_of_find?_eq_some hfin
  next => cases h

theorem sshPortRange_pairwise : sshPortRange.Pairwise (· < ·) := by
  unfold sshPortRange
  rw [pairwise_map]
  exact pairwise_lt_range.imp fun h => by omega

section Chosen
variable {host : Host} {port : ℕ}

theorem nextPort_requested {requested : ℕ} (h : nextPort host (some requested)=.ok port) : port=requested := by
  unfold nextPort at h
  dsimp only at h
  split at h
  next => cases h
  next =>
    split at h
    next => cases h
    next =>
      cases h
      rfl

/- The first free port of the range is configured unless another free one comes before each that is. -/
theorem nextPort_unrequested (h : nextPort host none=.ok port) (ports : List ℕ) : port ∉ ports ↔
    ∀ other ∈ ports, other ∈ sshPortRange → portAvailable host (loopback other)=true → ∃ free ∈ sshPortRange,
      free<other ∧ portAvailable host (loopback free)=true ∧ free ∉ ports := by
  unfold nextPort at h
  dsimp only at h
  split at h
  next found hfin =>
    cases h
    obtain ⟨hava,front,rest,hran,hfro⟩ := find?_eq_some_iff_append.1 hfin
    have hsor:=sshPortRange_pairwise
    rw [hran,pairwise_append] at hsor
    obtain ⟨-,hres,hbef⟩ := hsor
    have haft : ∀ later ∈ rest, port<later := fun later hlat => rel_of_pairwise_cons hres hlat
    -- what is free comes no earlier than the first
    have hlea : ∀ other ∈ sshPortRange, portAvailable host (loopback other)=true → other=port ∨ port<other := by
      intro other hmem hfre
      rw [hran,mem_append,mem_cons] at hmem
      rcases hmem with hear | heq | hlate
      · have hbou:=hfro other hear
        rw [hfre] at hbou
        cases hbou
      · exact Or.inl heq
      · exact Or.inr (haft other hlate)
    have hmem : port ∈ sshPortRange := by
      rw [hran]
      simp
    constructor
    · intro hnot other hoth hin hfre
      rcases hlea other hin hfre with rfl | hlt
      · exact absurd hoth hnot
      · exact ⟨port,hmem,hlt,hava,hnot⟩
    · intro hall hpor
      obtain ⟨free,hin,hlt,hfre,-⟩ := hall port hpor hmem hava
      rcases hlea free hin hfre with rfl | hgt
      · exact absurd hlt (lt_irrefl _)
      · exact absurd hlt (lt_asymm hgt)
  next => cases h

end Chosen

section Commands
variable {z : Formats} {host after : Host} {name : String}

theorem gateway_not_mem (hgoo : (hostPorts host.state.config).Nodup) :
    ∀ port ∈ gatewayPorts host.state.config.gateway, port ∉ sshPorts host.state.config.computers := by
  rw [hostPorts_eq,nodup_append] at hgoo
  exact fun port hpor hmem => hgoo.2.2 port hpor port hmem rfl

theorem sshPorts_nodup (hgoo : (hostPorts host.state.config).Nodup) :
    (sshPorts host.state.config.computers).Nodup := by
  rw [hostPorts_eq] at hgoo
  exact hgoo.of_append_right

theorem sshPort_of_not_enabled {computer : ComputerConfig} (h : sshEnabled computer=false) : sshPort computer=none := by
  unfold sshEnabled at h
  unfold sshPort
  cases hssh : computer.ssh with
  | none => rfl
  | some ssh =>
    rw [hssh] at h
    simp only [Option.any_some] at h
    simp [Option.filter,h]

theorem sshPort_of_enabled {computer : ComputerConfig} {ssh : SshAccess} (h : sshEnabled computer=true)
    (hssh : computer.ssh=some ssh) : sshPort computer=some ssh.port := by
  unfold sshEnabled at h
  unfold sshPort
  rw [hssh] at h ⊢
  simp only [Option.any_some] at h
  simp [Option.filter,h]

theorem sshPort_changed {computer : ComputerConfig} {action : SshAction} {port : ℕ} {key : SshKey}
    {ssh : Option SshAccess} (h : changedSsh action port key=.ok ssh) :
    sshPort { computer with ssh } = if action=.disable then none else some port := by
  unfold changedSsh at h
  split at h
  next =>
    cases h
    rfl
  next hnot =>
    dsimp only at h
    split at h
    next =>
      cases h
      rw [if_neg hnot]
      rfl
    next => cases h

section
variable {action : SshAction} {requestedPort : Option ℕ} {key : SshKey}
   (h : changeSshAccess z host name action requestedPort key=.ok after)
include h

theorem hostPorts_changeSshAccess : ∃ computer port front rest,
      assertSshAction computer action=.ok () ∧ chosenPort host computer action requestedPort=.ok port ∧
      hostPorts host.state.config=front++((sshPort computer).toList++rest) ∧
      hostPorts after.state.config=front++((if action=.disable then none else some port).toList++rest) := by
  unfold changeSshAccess at h
  simp only [bind_ok] at h
  obtain ⟨computer,hfin,⟨⟩,hass,h⟩ := h
  split at h
  next => cases h
  next =>
    simp only [bind_ok,Except.ok.injEq] at h
    obtain ⟨port,hpor,ssh,hssh,state,hexe,rfl⟩ := h
    have hsav:=saved_of_execute hexe
    have hids:=hsav.ids
    simp only [LoadedState.withComputers,replaceComputer_ids] at hids
    have hspl:=@replaceComputer_split _ { computer with ssh } hids _ (mem_of_findComputer hfin) rfl
    obtain ⟨front,rest,hbef,haft⟩ := hspl
    refine ⟨computer,port,gatewayPorts host.state.config.gateway++sshPorts front,sshPorts rest,hass,hpor,?_,?_⟩
    · rw [hostPorts_eq,hbef,sshPorts_append,sshPorts_cons,append_assoc]
    · show hostPorts state.config=_
      rw [hsav.hostPorts_eq,hostPorts_eq]
      simp only [LoadedState.withComputers]
      rw [haft,sshPorts_append,sshPorts_cons,sshPort_changed hssh,append_assoc]

theorem nodup_ssh
    (hgoo : (hostPorts host.state.config).Nodup) :
    (hostPorts after.state.config).Nodup ↔ Unconfigured host (.ssh name action requestedPort key) := by
  obtain ⟨computer,port,front,rest,hass,hpor,hbef,haft⟩ := hostPorts_changeSshAccess h
  rw [haft]
  cases action with
  | disable =>
    have hall : (front++rest).Nodup := by
      rw [hbef] at hgoo
      exact hgoo.sublist ((sublist_append_right _ _).append_left front)
    exact iff_of_true hall trivial
  | rotate =>
    unfold assertSshAction at hass
    dsimp only at hass
    split at hass
    next hena =>
      have hsam : (hostPorts host.state.config)=front++([port]++rest) := by
        unfold chosenPort at hpor
        split at hpor
        next heq => cases heq
        next ssh _ hssh _ =>
          cases hpor
          rw [hbef,sshPort_of_enabled hena hssh]
          rfl
        next => cases hpor
      rw [hsam] at hgoo
      exact iff_of_true hgoo trivial
    next => cases hass
  | enable =>
    have hfre : (hostPorts host.state.config)=front++rest := by
      unfold assertSshAction at hass
      dsimp only at hass
      split at hass
      next => cases hass
      next =>
        split at hass
        next => cases hass
        next hnot => rw [hbef,sshPort_of_not_enabled (by simpa using hnot),Option.toList_none,nil_append]
    have hiff : (front++([port]++rest)).Nodup ↔ port ∉ hostPorts host.state.config := by
      rw [singleton_append,nodup_middle,nodup_cons,← hfre]
      exact and_iff_left hgoo
    have hcho : nextPort host requestedPort=.ok port := hpor
    refine hiff.trans ?_
    cases requestedPort with
    | some requested =>
      rw [nextPort_requested hcho]
      exact Iff.rfl
    | none => exact nextPort_unrequested hcho _

end

theorem nodup_config {requested : ConfigRequest} (h : setConfig z host requested=.ok after)
    (hgoo : (hostPorts host.state.config).Nodup) :
    (hostPorts after.state.config).Nodup ↔ Unconfigured host (.config requested) := by
  unfold setConfig at h
  simp only [bind_ok] at h
  obtain ⟨state,hexe,-,-,h⟩ := h
  cases h
  have hsav:=saved_of_execute hexe
  rw [hsav.nodup_iff (sshPorts_nodup hgoo)]
  have hold:=gateway_not_mem hgoo
  unfold gatewayPorts at hold ⊢
  simp only [forall_mem_cons] at hold ⊢
  show _ ↔ ∀ port, requested.gatewayPort=some port → port ∉ sshPorts host.state.config.computers
  cases hpor : requested.gatewayPort with
  | none => exact iff_of_true hold fun port heq => by cases heq
  | some port =>
    constructor
    · intro hall other heq
      cases heq
      exact hall.1
    · exact fun hall => ⟨hall port rfl,hold.2⟩

theorem nodup_expose {exposure : GatewayExposureConfig} {tls : GatewayExposureTlsSecret}
    (h : exposeGateway z host exposure tls=.ok after) (hgoo : (hostPorts host.state.config).Nodup) :
    (hostPorts after.state.config).Nodup ↔ Unconfigured host (.expose exposure tls) := by
  unfold exposeGateway at h
  dsimp only at h
  split at h
  next => cases h
  next =>
    split at h
    next => cases h
    next =>
      simp only [bind_ok,Except.ok.injEq] at h
      obtain ⟨state,hexe,rfl⟩ := h
      have hsav:=saved_of_execute hexe
      refine (hsav.nodup_iff (sshPorts_nodup hgoo)).trans ?_
      have hpor : host.state.config.gateway.port ∉ sshPorts host.state.config.computers :=
        gateway_not_mem hgoo _ mem_cons_self
      simp only [LoadedState.withGateway,gatewayPorts,Option.map_some,Option.toList_some,forall_mem_cons,
        Unconfigured]
      constructor
      · exact fun hall => hall.2.1
      · exact fun hnot => ⟨hpor,hnot,fun _ hmem => absurd hmem not_mem_nil⟩

theorem nodup_revoke (h : revokeGateway z host=.ok after) (hgoo : (hostPorts host.state.config).Nodup) :
    (hostPorts after.state.config).Nodup := by
  unfold revokeGateway at h
  simp only [bind_ok,Except.ok.injEq] at h
  obtain ⟨state,hexe,rfl⟩ := h
  have hsav:=saved_of_execute hexe
  refine (hsav.nodup_iff (sshPorts_nodup hgoo)).2 ?_
  intro port hpor
  obtain rfl : port=host.state.config.gateway.port := by simpa [gatewayPorts,LoadedState.withGateway] using hpor
  exact gateway_not_mem hgoo _ mem_cons_self

theorem nodup_of_sublist {before : LoadedState} (hsav : Saved before state)
    (hgat : before.config.gateway=host.state.config.gateway)
    (hsub : (sshPorts before.config.computers).Sublist (sshPorts host.state.config.computers))
    (hgoo : (hostPorts host.state.config).Nodup) : (hostPorts state.config).Nodup := by
  rw [hsav.nodup_iff ((sshPorts_nodup hgoo).sublist hsub),hgat]
  exact fun port hpor hmem => gateway_not_mem hgoo port hpor (hsub.subset hmem)

theorem sshPorts_filter (computers : List ComputerConfig) (p : ComputerConfig → Bool) :
    (sshPorts (computers.filter p)).Sublist (sshPorts computers) :=
  filter_sublist.filterMap _

theorem added_spec {added : LoadedState} {computer : ComputerConfig}
    (h : addConfiguredComputer z fresh name defaults state=.ok (computer,added)) :
    added.config.gateway=state.config.gateway ∧ added.config.computers=state.config.computers++[computer] ∧
      sshPort computer=none := by
  unfold addConfiguredComputer at h
  split at h
  next => cases h
  next =>
    split at h
    next => cases h
    next =>
      simp only [bind_ok,Except.ok.injEq,Prod.mk.injEq] at h
      obtain ⟨runtimeName,-,parsed,hpar,rfl,rfl⟩ := h
      refine ⟨rfl,rfl,?_⟩
      unfold parseComputer at hpar
      split at hpar
      next found hfou =>
        cases hpar
        exact (parse_computer hfou).2
      next => cases hpar

theorem CreationPolicy.apply_spec (policy : CreationPolicy) (computer : ComputerConfig) :
    (policy.apply computer).id=computer.id ∧ sshPort (policy.apply computer)=sshPort computer := ⟨rfl,rfl⟩

theorem nodup_create {requestedName : Option String} {policy : CreationPolicy}
    (h : createComputer z host fresh requestedName defaults policy=.ok after)
    (hgoo : (hostPorts host.state.config).Nodup) : (hostPorts after.state.config).Nodup := by
  obtain ⟨name,nextName,computer,added,state,hadd,hexe,rfl⟩ := createComputer_ok z h
  obtain ⟨hgat,hcom,hnon⟩ := added_spec hadd
  have hsav:=saved_of_execute hexe
  have hids:=hsav.ids
  simp only [LoadedState.withComputers,replaceComputer_ids] at hids
  have hmem : computer ∈ added.config.computers := by
    rw [hcom]
    simp
  have hent:=portEntries_replaceComputer hids hmem (policy.apply_spec computer).1 (policy.apply_spec computer).2
  refine nodup_of_sublist hsav hgat ?_ hgoo
  show (sshPorts (replaceComputer added.config.computers (policy.apply computer))).Sublist _
  rw [sshPorts_congr hent,hcom,sshPorts_append,sshPorts_cons,hnon]
  simp [sshPorts]

theorem nodup_delete {deletedAt : String} (h : deleteComputer z host name deletedAt=.ok after)
    (hgoo : (hostPorts host.state.config).Nodup) : (hostPorts after.state.config).Nodup := by
  unfold deleteComputer at h
  simp only [bind_ok,Except.ok.injEq] at h
  obtain ⟨computer,-,state,hexe,rfl⟩ := h
  exact nodup_of_sublist (saved_of_execute hexe) rfl (sshPorts_filter _ _) hgoo

theorem findTrash_spec {trash : List ComputerMetadata} {found : ComputerMetadata} (h : findTrash trash name=.ok found) :
    ∀ metadata, metadata ∈ trash ∧ (metadata.name=name ∨ metadata.id=name) ↔ metadata=found := by
  intro metadata
  unfold findTrash at h
  split at h
  next => cases h
  next only hfil =>
    cases h
    have hiff : metadata ∈ trash.filter (fun metadata => decide (metadata.name=name ∨ metadata.id=name)) ↔
        metadata ∈ [found] := by rw [hfil]
    simpa using hiff
  next => cases h

theorem nodup_restore (h : restoreComputer z host fresh name=.ok after) (hgoo : (hostPorts host.state.config).Nodup) :
    (hostPorts after.state.config).Nodup ↔ Unconfigured host (.restore fresh name) := by
  unfold restoreComputer at h
  simp only [bind_ok] at h
  obtain ⟨found,hfin,h⟩ := h
  split at h
  next => cases h
  next =>
    simp only [bind_ok,Except.ok.injEq] at h
    obtain ⟨state,hexe,rfl⟩ := h
    have haft : hostPorts state.config=hostPorts host.state.config++(sshPort found.toComputerConfig).toList := by
      rw [(saved_of_execute hexe).hostPorts_eq,hostPorts_eq,hostPorts_eq]
      simp only [LoadedState.withComputers]
      rw [sshPorts_append,sshPorts_cons,← append_assoc]
      simp [sshPorts]
    have honl : Unconfigured host (.restore fresh name) ↔
        ∀ port, sshPort found.toComputerConfig=some port → port ∉ hostPorts host.state.config := by
      constructor
      · intro hall
        obtain ⟨hmem,hnam⟩ := (findTrash_spec hfin found).2 rfl
        exact hall found hmem hnam
      · intro hall metadata hmem hnam
        obtain rfl := (findTrash_spec hfin metadata).1 ⟨hmem,hnam⟩
        exact hall
    show (hostPorts state.config).Nodup ↔ _
    rw [haft,honl]
    cases hpor : sshPort found.toComputerConfig with
    | none => simpa using hgoo
    | some port =>
      rw [Option.toList_some,nodup_append]
      constructor
      · rintro ⟨-,-,hdis⟩ other heq hmem
        cases heq
        exact hdis port hmem port (mem_singleton.2 rfl) rfl
      · intro hall
        refine ⟨hgoo,nodup_singleton _,?_⟩
        rintro a ha b hb rfl
        exact hall a (by rw [mem_singleton.1 hb]) ha

theorem assignDeclared_spec (services : ApplyServices) (declared : ManifestComputer) (target : ComputerConfig) :
    (assignDeclared services declared target).id=target.id ∧
      sshPort (assignDeclared services declared target)=sshPort target := by
  unfold assignDeclared
  split <;> exact ⟨rfl,rfl⟩

structure Extends (before after : LoadedState) : Prop where
  gateway : after.config.gateway=before.config.gateway
  entries : ∃ extra, portEntries after.config.computers=portEntries before.config.computers++extra ∧
    ∀ entry ∈ extra, entry.2=none

theorem Extends.trans {before between after : LoadedState} (h : Extends before between) (h' : Extends between after) :
    Extends before after where
  gateway := h'.gateway.trans h.gateway
  entries := by
    obtain ⟨first,hfir,hnon⟩ := h.entries
    obtain ⟨second,hsec,hnon'⟩ := h'.entries
    refine ⟨first++second,by rw [hsec,hfir,append_assoc],?_⟩
    intro entry hmem
    rcases mem_append.1 hmem with hear | hlate
    · exact hnon entry hear
    · exact hnon' entry hlate

theorem Extends.ids {before after : LoadedState} (h : Extends before after)
    (hids : (after.config.computers.map (·.id)).Nodup) : (before.config.computers.map (·.id)).Nodup := by
  obtain ⟨extra,hent,-⟩ := h.entries
  rw [← portEntries_ids,hent,map_append,portEntries_ids] at hids
  exact hids.of_append_left

theorem applyDeclared_spec {computer : ManifestComputer} (h : applyDeclared z services state computer=.ok declared)
    (hids : (declared.config.computers.map (·.id)).Nodup) : Extends state declared := by
  unfold applyDeclared at h
  split at h
  next current hfin =>
    cases h
    simp only [LoadedState.withComputers,replaceComputer_ids] at hids
    have hspe:=assignDeclared_spec services computer current
    refine ⟨rfl,[],?_,fun entry hmem => absurd hmem not_mem_nil⟩
    rw [append_nil]
    exact portEntries_replaceComputer hids (mem_of_find?_eq_some hfin) hspe.1 hspe.2
  next =>
    simp only [bind_ok,Except.ok.injEq] at h
    obtain ⟨⟨created,added⟩,hadd,rfl⟩ := h
    obtain ⟨hgat,hcom,hnon⟩ := added_spec hadd
    simp only [LoadedState.withComputers,replaceComputer_ids] at hids
    have hmem : created ∈ added.config.computers := by
      rw [hcom]
      simp
    have hspe:=assignDeclared_spec services computer created
    refine ⟨hgat,[(created.id,none)],?_,by simp⟩
    refine (portEntries_replaceComputer hids hmem hspe.1 hspe.2).trans ?_
    rw [hcom]
    unfold portEntries
    rw [map_append,map_singleton,hnon]

theorem declared_spec {computers : List ManifestComputer}
    (h : computers.foldlM (applyDeclared z services) state=.ok declared)
    (hids : (declared.config.computers.map (·.id)).Nodup) : Extends state declared := by
  induction computers generalizing state with
  | nil =>
    cases pure_ok.1 h
    exact ⟨rfl,[],by rw [append_nil],fun entry hmem => absurd hmem not_mem_nil⟩
  | cons computer rest ih =>
    rw [foldlM_cons,bind_ok] at h
    obtain ⟨between,hfir,hres⟩ := h
    have hlat:=ih hres
    exact (applyDeclared_spec hfir (hlat.ids hids)).trans hlat

/- By ID, as they are removed, or by name, as they are found. -/
theorem removed_eq_kept {manifest : Manifest} {prune : Bool} {deletes : List ComputerConfig}
    (h : reconcileManifest config manifest prune=.ok deletes) (hids : (config.computers.map (·.id)).Nodup) :
    (config.computers.filter fun computer => computer.id ∉ deletes.map (·.id))=keptComputers config manifest prune := by
  unfold reconcileManifest at h
  split at h
  next => cases h
  next =>
    cases h
    unfold keptComputers
    refine filter_congr fun computer hmem => ?_
    have hrem : computer.id ∈ ((if prune then config.computers.filter fun computer =>
        computer.name ∉ manifest.computers.map (·.name) else []).map (·.id)) ↔
        prune=true ∧ computer.name ∉ manifest.computers.map (·.name) := by
      cases prune with
      | false => simp
      | true =>
        constructor
        · intro hin
          obtain ⟨other,hoth,heq⟩ := mem_map.1 hin
          obtain ⟨hotherMem,hnam⟩ := mem_filter.1 hoth
          obtain rfl := inj_on_of_nodup_map hids hotherMem hmem heq
          exact ⟨rfl,by simpa using hnam⟩
        · rintro ⟨-,hnam⟩
          exact mem_map_of_mem (mem_filter.2 ⟨hmem,by simpa using hnam⟩)
    rw [Bool.eq_iff_iff,decide_eq_true_eq,hrem]
    cases prune <;> simp

theorem sshPorts_kept {computers later : List ComputerConfig} {extra : List (String × Option ℕ)}
    (hent : portEntries later=portEntries computers++extra) (hnon : ∀ entry ∈ extra, entry.2=none)
    (removed : List String) : sshPorts (later.filter fun computer => computer.id ∉ removed) =
      sshPorts (computers.filter fun computer => computer.id ∉ removed) := by
  have hfil : ∀ computers : List ComputerConfig,
      portEntries (computers.filter fun computer => computer.id ∉ removed) =
        (portEntries computers).filter fun entry => entry.1 ∉ removed := by
    intro computers
    unfold portEntries
    rw [filter_map]
    rfl
  have hext : (extra.filter fun entry => entry.1 ∉ removed).filterMap (·.2)=[] := by
    refine filterMap_eq_nil_iff.2 fun entry hmem => hnon entry (mem_filter.1 hmem).1
  rw [sshPorts_eq,sshPorts_eq,hfil,hfil,hent,filter_append,filterMap_append,hext,
    append_nil]

theorem nodup_apply {manifest : Manifest} {prune : Bool} {deletedAt : String}
    (h : applyManifest z host services manifest prune deletedAt=.ok after)
    (hgoo : (hostPorts host.state.config).Nodup) :
    (hostPorts after.state.config).Nodup ↔ Unconfigured host (.apply services manifest prune deletedAt) := by
  unfold applyManifest at h
  simp only [bind_ok,Except.ok.injEq] at h
  obtain ⟨deletes,hrec,-,-,declared,hdec,parsed,hpar,state,hexe,rfl⟩ := h
  have hpad:=saved_of_execute hpar
  have hsav:=saved_of_execute hexe
  have hext:=declared_spec hdec hpad.ids
  have hids:=hext.ids hpad.ids
  -- the computers that remain are the kept ones and new ones without an access
  have hssh : sshPorts (moveToTrash parsed deletes).config.computers =
      sshPorts (keptComputers host.state.config manifest prune) := by
    rw [← removed_eq_kept hrec hids]
    obtain ⟨extra,hent,hnon⟩ := hext.entries
    exact sshPorts_kept (hpad.entries.trans hent) hnon _
  have hsub : (sshPorts (keptComputers host.state.config manifest prune)).Sublist
      (sshPorts host.state.config.computers) := sshPorts_filter _ _
  have hpor : gatewayPorts (moveToTrash parsed deletes).config.gateway =
      manifest.port::(host.state.config.gateway.exposure.map (·.port)).toList := by
    show gatewayPorts parsed.config.gateway=_
    rw [hpad.gatewayPorts_eq,hext.gateway]
    rfl
  refine (hsav.nodup_iff (by rw [hssh]; exact (sshPorts_nodup hgoo).sublist hsub)).trans ?_
  rw [hssh,hpor,forall_mem_cons]
  refine and_iff_left fun port hpot hmem => ?_
  exact gateway_not_mem hgoo port (mem_cons_of_mem _ hpot) (hsub.subset hmem)

theorem state_start (h : startComputer host name=.ok after) : after.state=host.state := by
  unfold startComputer at h
  simp only [bind_ok] at h
  obtain ⟨computer,-,h⟩ := h
  split at h
  next =>
    cases h
    rfl
  next =>
    split at h
    next =>
      cases h
      rfl
    next =>
      split at h
      next =>
        cases h
        rfl
      next => cases h

theorem state_stop (h : stopComputer host name=.ok after) : after.state=host.state := by
  unfold stopComputer at h
  simp only [bind_ok,Except.ok.injEq] at h
  obtain ⟨computer,-,rfl⟩ := h
  rfl

theorem state_purge (h : purge host name=.ok after) : after.state=host.state := by
  unfold purge at h
  simp only [bind_ok,Except.ok.injEq] at h
  obtain ⟨found,-,rfl⟩ := h
  rfl

theorem state_startGateway (h : startGateway host=.ok after) : after.state=host.state := by
  unfold startGateway at h
  simp only [bind_ok,Except.ok.injEq] at h
  obtain ⟨_,-,rfl⟩ := h
  rfl

theorem state_bind {pid : ℕ} {s : Socket} (h : bindSocket host pid s=.ok after) : after.state=host.state := by
  unfold bindSocket at h
  split at h
  next =>
    cases h
    rfl
  next => cases h

/-- A step keeps the ports different if and only if the port that it brings in was not configured. -/
theorem nodup_step {action : Action} (h : (system z).step host action=some after)
    (hgoo : (hostPorts host.state.config).Nodup) :
    (hostPorts after.state.config).Nodup ↔ Unconfigured host action := by
  have hrun : run z host action=.ok after := by
    simp only [system] at h
    cases hres : run z host action with
    | ok result =>
      rw [hres] at h
      cases h
      rfl
    | error e =>
      rw [hres] at h
      cases h
  have hkep : after.state=host.state → (hostPorts after.state.config).Nodup := fun heq => heq ▸ hgoo
  cases action with
  | ssh => exact nodup_ssh hrun hgoo
  | config => exact nodup_config hrun hgoo
  | expose => exact nodup_expose hrun hgoo
  | revoke => exact iff_of_true (nodup_revoke hrun hgoo) trivial
  | apply => exact nodup_apply hrun hgoo
  | create => exact iff_of_true (nodup_create hrun hgoo) trivial
  | delete => exact iff_of_true (nodup_delete hrun hgoo) trivial
  | restore => exact nodup_restore hrun hgoo
  | purge => exact iff_of_true (hkep (state_purge hrun)) trivial
  | start => exact iff_of_true (hkep (state_start hrun)) trivial
  | stop => exact iff_of_true (hkep (state_stop hrun)) trivial
  | startGateway => exact iff_of_true (hkep (state_startGateway hrun)) trivial
  | bind => exact iff_of_true (hkep (state_bind hrun)) trivial
  | stopGateway =>
    cases hrun
    exact iff_of_true hgoo trivial
  | release =>
    cases hrun
    exact iff_of_true hgoo trivial

theorem nodup_initial (h : (system z).initial host) : (hostPorts host.state.config).Nodup := by
  obtain ⟨hcom,hexp,-⟩ := h
  rw [hostPorts_eq,hcom]
  unfold gatewayPorts
  rw [hexp]
  exact nodup_singleton _

end Commands

/-- No host port is configured twice in a run that brings in unconfigured ports only; and of the steps from
a state without a collision, exactly the others lead to one. -/
theorem host_ports_separate (z : Formats) :
    (∀ host actions after, (system z).initial host → (system z).RunWhere Unconfigured host actions after →
      Separate after.state.config) ∧
    ∀ host action after, Separate host.state.config → (system z).step host action=some after →
      (Separate after.state.config ↔ Unconfigured host action) := by
  constructor
  · intro host actions after hini hrun
    have hpre : (hostPorts after.state.config).Nodup :=
      hrun.preserves (fun s a t hs hfre hste => (nodup_step hste hs).2 hfre) (nodup_initial hini)
    exact separate_of_nodup hpre
  · intro host action after hgoo hste
    refine Iff.trans ?_ (nodup_step hste hgoo.compose)
    exact ⟨Separate.compose,separate_of_nodup⟩

def newHost : Host where
  state := {
    paths := ⟨"/home/user/.qubicl"⟩
    config := { exampleConfig 5 with computers := [] }
    secrets := ⟨5,⟨[],nodup_nil⟩,none⟩ }
  trash := []
  gateway := .absent
  running := []
  sockets := []

def createStopped (id name : String) : Action :=
  .create ⟨id,exampleDate,exampleSecret,exampleId,exampleDate,exampleId⟩ (some name) exampleDefaults ⟨none,none⟩

def enableSsh (name : String) (port : Option ℕ) : Action :=
  .ssh name .enable port ⟨"ssh-ed25519 AAAAC3NzaC1lZDI1NTE5AAAAIExample","SHA256:example"⟩

theorem newHost_initial (z : Formats) : (system z).initial newHost := by
  refine ⟨rfl,rfl,rfl,rfl,rfl,?_⟩
  intro bound hmem
  cases hmem

theorem host_ports_separate_one : ∃ host : Host, hostPorts host.state.config=[3211,2222] ∧ Separate host.state.config := by
  let first:=createStopped exampleId "main"
  let second:=enableSsh "main" (some 2222)
  have hexe : ((system exampleFormats).exec newHost [first,second]).map (fun host => hostPorts host.state.config) =
      some [3211,2222] := by decide +kernel
  obtain ⟨host,hhos,hpor⟩ := Option.map_eq_some_iff.1 hexe
  obtain ⟨between,hfir,hres⟩ := Option.bind_eq_some_iff.1 hhos
  obtain ⟨last,hsec,hlas⟩ := Option.bind_eq_some_iff.1 hres
  cases hlas
  have hbet:=(nodup_step hfir (nodup_initial (newHost_initial exampleFormats))).2 trivial
  have hfre : Unconfigured between second := (nodup_step hsec hbet).1 (by rw [hpor]; decide)
  refine ⟨host,hpor,(host_ports_separate exampleFormats).1 newHost [first,second] host (newHost_initial _) ?_⟩
  exact .tail (.tail (.refl _) trivial hfir) hfre hsec

def createBoth : List Action :=
  [createStopped exampleId "main",createStopped "8d3c1d1e-5f0a-4b7e-9a57-0c8d1f6b2a11" "copy"]

/-- Each is given the first port of the range, which no stopped computer binds. -/
theorem stopped_computers_share_port : ∃ host, (system exampleFormats).Reachable host ∧
    sshPorts host.state.config.computers=[22220,22220] ∧ ¬ Separate host.state.config := by
  have hexe : ((system exampleFormats).exec newHost (createBoth++[enableSsh "main" none,enableSsh "copy" none])).map
      (fun host => sshPorts host.state.config.computers)=some [22220,22220] := by decide +kernel
  obtain ⟨host,hhos,hpor⟩ := Option.map_eq_some_iff.1 hexe
  refine ⟨host,⟨newHost,_,newHost_initial _,TransitionSystem.run_of_exec hhos⟩,hpor,fun hsep => ?_⟩
  have hnod:=hsep.compose
  rw [hostPorts_eq,hpor] at hnod
  exact absurd hnod.of_append_right (by decide)

end Qubicl.Cli.Ports
