import Mathlib.Data.List.Sort
import Qubicl.Core.Computer

/-!
# What Docker publishes of the gateway (packages/cli/src/docker.ts:1922-2018, 2037-2067)

The bindings that were configured and those that are observed must be the loopback port and, when the
gateway is exposed, one external port. Anything else is an issue, and no issue means that there is nothing else.
-/

namespace Qubicl.Cli.Publication
open Foundation Core List Option

structure Binding where
  HostIp : Option String
  HostPort : Option String
  deriving DecidableEq, Repr

abbrev Bindings := Option (List (Option Binding))

structure HostConfig where
  PublishAllPorts : Option Bool
  PortBindings : Option (Record Bindings)

structure GatewayPublicationInspection where
  Running : Option Bool
  HostConfig : Option HostConfig
  Ports : Option (Record Bindings)

inductive Target
  | externalTls | localHttp | unexpected
  deriving DecidableEq, Repr

inductive VerificationIssue
  | publishAllPorts | hostRuntimeMismatch | unsafeLocalPublication | ambiguousPublication | unexpectedPublication
  deriving DecidableEq, Repr

structure GatewayExternalPublication where
  hostIp : Option String := none
  hostPort : Option ℕ := none
  target : Option Target := none
  verificationIssue : Option VerificationIssue := none
  detail : Option String := none
  deriving DecidableEq, Repr

/- `bindings?.length ?? 0` is not positive -/
def unpublished (bindings : Bindings) : Bool := (bindings.getD []).isEmpty

/- `table?.[target]` -/
def bindingsAt (table : Option (Record Bindings)) (target : String) : Bindings :=
  (table.bind fun record => record.get target).join

namespace GatewayPublicationInspection
variable (inspection : GatewayPublicationInspection)

def portBindings : Option (Record Bindings) := inspection.HostConfig.bind (·.PortBindings)

def configured (target : String) : Bindings := bindingsAt inspection.portBindings target

def observed (target : String) : Bindings := bindingsAt inspection.Ports target

def running : Bool := inspection.Running == some true

def publishAllPorts : Bool := (inspection.HostConfig.bind (·.PublishAllPorts)) == some true

end GatewayPublicationInspection

def externalTarget : String := "3216/tcp"
def localTarget : String := "3211/tcp"

/- `/^\d+$/u` -/
def decimal (text : String) : Bool := !text.toList.isEmpty && text.toList.all Char.isDigit

def ambiguous (detail : String) : GatewayExternalPublication :=
  { verificationIssue := some .ambiguousPublication, detail := some detail }

def singleGatewayPublication (bindings : Bindings) (label : String) : Option GatewayExternalPublication :=
  match bindings.getD [] with
  | [] => none
  | [some ⟨some hostIp,some text⟩] =>
    if !decimal text then some (ambiguous ("Gateway has ambiguous " ++ label ++ " port publications."))
    else if !within 1 65535 (Number.natOfDigits text.toList) then
      some (ambiguous ("Gateway " ++ label ++ " publication has an invalid host port."))
    else some { hostIp := some hostIp, hostPort := some (Number.natOfDigits text.toList) }
  | _ => some (ambiguous ("Gateway has ambiguous " ++ label ++ " port publications."))

def sameGatewayPublication : Option GatewayExternalPublication → Option GatewayExternalPublication → Bool
  | none, none => true
  | some left, some right =>
    left.verificationIssue.isNone && right.verificationIssue.isNone && left.hostIp.isSome && left.hostPort.isSome &&
      left.hostIp == right.hostIp && left.hostPort == right.hostPort
  | _, _ => false

def issueOf (publication : Option GatewayExternalPublication) : Option VerificationIssue :=
  publication.bind (·.verificationIssue)

def unexpectedIn (table : Option (Record Bindings)) : List String :=
  match table with
  | none => []
  | some record => (record.entries.filter fun entry =>
      !([externalTarget,localTarget].contains entry.1) && !unpublished entry.2).map Prod.fst

def unexpectedTargets (inspection : GatewayPublicationInspection) : List String :=
  distinct (unexpectedIn inspection.portBindings++unexpectedIn inspection.Ports)

def externalPublication (running : Bool) (planned actual : Option GatewayExternalPublication) :
    Option GatewayExternalPublication :=
  if !running && planned.isSome && actual.isNone then planned
  else if !running && planned.isNone && actual.isNone then none
  else if sameGatewayPublication planned actual then actual.or planned
  else (actual.or planned).map fun publication =>
    { publication with verificationIssue := some .hostRuntimeMismatch }

def localPublicationVerified (running : Bool) (plannedLocal actualLocal expectedLocal : Option GatewayExternalPublication) :
    Bool :=
  sameGatewayPublication plannedLocal expectedLocal &&
    (if running then sameGatewayPublication actualLocal expectedLocal else actualLocal.isNone)

def publishAllPublication (actual planned actualLocal plannedLocal expectedLocal : Option GatewayExternalPublication) :
    GatewayExternalPublication :=
  let publication:=actual.or (planned.or (actualLocal.or (plannedLocal.or expectedLocal)))
  { publication.getD {} with
    target := some (if actual.isSome || planned.isSome then .externalTls
      else if actualLocal.isSome || plannedLocal.isSome then .localHttp else .unexpected)
    verificationIssue := some .publishAllPorts
    detail := match publication with
      | none => some "Docker PublishAllPorts is enabled without an identifiable publication."
      | some publication => publication.detail }

def unexpectedPublication (targets : List String) : GatewayExternalPublication where
  target := some .unexpected
  verificationIssue := some .unexpectedPublication
  detail := some ("Unexpected gateway target publication(s): " ++
    ", ".intercalate (targets.insertionSort (· ≤ ·)) ++ ".")

def gatewayExternalPublicationFromInspection (inspection : GatewayPublicationInspection)
    (expectedLocalPort : Option ℕ) : Option GatewayExternalPublication :=
  let planned:=singleGatewayPublication (inspection.configured externalTarget) "configured"
  let actual:=singleGatewayPublication (inspection.observed externalTarget) "observed"
  let plannedLocal:=expectedLocalPort.bind fun _ =>
    singleGatewayPublication (inspection.configured localTarget) "configured local HTTP"
  let actualLocal:=expectedLocalPort.bind fun _ =>
    singleGatewayPublication (inspection.observed localTarget) "observed local HTTP"
  let expectedLocal:=expectedLocalPort.map fun port =>
    ({ hostIp := some "127.0.0.1", hostPort := some port } : GatewayExternalPublication)
  if (issueOf planned).isSome || (issueOf actual).isSome then
    (if (issueOf actual).isSome then actual else planned).map fun publication =>
      { publication with target := some .externalTls }
  else if (issueOf plannedLocal).isSome || (issueOf actualLocal).isSome then
    (if (issueOf actualLocal).isSome then actualLocal else plannedLocal).map fun publication =>
      { publication with target := some .localHttp }
  else
    let localVerified:=expectedLocalPort.isNone ||
      localPublicationVerified inspection.running plannedLocal actualLocal expectedLocal
    if inspection.publishAllPorts then
      some (publishAllPublication actual planned actualLocal plannedLocal expectedLocal)
    else if !(unexpectedTargets inspection).isEmpty then some (unexpectedPublication (unexpectedTargets inspection))
    else
      let external:=externalPublication inspection.running planned actual
      if !localVerified then
        (external.or (actualLocal.or (plannedLocal.or expectedLocal))).map fun publication =>
          { publication with
            target := some (if external.isSome then .externalTls else .localHttp)
            verificationIssue := some .unsafeLocalPublication }
      else external

/-- The bindings are one, at this address and port. -/
def ExactlyAt (bindings : Bindings) (hostIp : String) (hostPort : ℕ) : Prop :=
  ∃ text, bindings=some [some ⟨some hostIp,some text⟩] ∧ decimal text=true ∧
    Number.natOfDigits text.toList=hostPort

/-- Both have no binding, or the same one. -/
def Agree (configured observed : Bindings) : Prop :=
  (unpublished configured=true ∧ unpublished observed=true) ∨
    ∃ hostIp hostPort, ExactlyAt configured hostIp hostPort ∧ ExactlyAt observed hostIp hostPort

/-- Only the loopback port is published and, where there is a publication, the external port at its address. -/
structure Exact (inspection : GatewayPublicationInspection) (expectedLocalPort : ℕ)
    (publication : Option GatewayExternalPublication) : Prop where
  explicit : inspection.publishAllPorts=false
  loopback : ExactlyAt (inspection.configured localTarget) "127.0.0.1" expectedLocalPort
  external : match publication with
    | none => unpublished (inspection.configured externalTarget)=true
    | some publication => ∃ hostIp hostPort, publication.hostIp=some hostIp ∧ publication.hostPort=some hostPort ∧
        ExactlyAt (inspection.configured externalTarget) hostIp hostPort
  others : ∀ target, target≠localTarget → target≠externalTarget →
    unpublished (inspection.configured target)=true ∧ unpublished (inspection.observed target)=true
  observed : ∀ target, unpublished (inspection.observed target)=true ∨
    Agree (inspection.configured target) (inspection.observed target)
  running : inspection.running=true → ∀ target, Agree (inspection.configured target) (inspection.observed target)

section Single
variable {bindings : Bindings} {label : String}

theorem singleGatewayPublication_eq_none : singleGatewayPublication bindings label=none ↔ unpublished bindings=true := by
  unfold singleGatewayPublication unpublished
  cases h : bindings.getD [] with
  | nil => simp
  | cons binding rest =>
    simp only [isEmpty_cons,Bool.false_eq_true,iff_false]
    split
    next heq => cases heq
    next => split <;> first | exact some_ne_none _ | (split <;> exact some_ne_none _)
    next => exact some_ne_none _

/- A publication without an issue is that of one binding. -/
theorem singleGatewayPublication_exact {publication : GatewayExternalPublication}
    (h : singleGatewayPublication bindings label=some publication) (hiss : publication.verificationIssue=none) :
    ∃ hostIp hostPort, publication = { hostIp := some hostIp, hostPort := some hostPort } ∧
      ExactlyAt bindings hostIp hostPort := by
  unfold singleGatewayPublication at h
  split at h
  next => cases h
  next hostIp text hbin =>
    split at h
    next =>
      cases h
      cases hiss
    next hdec =>
      split at h
      next =>
        cases h
        cases hiss
      next =>
        cases h
        refine ⟨hostIp,_,rfl,text,?_,by simpa using hdec,rfl⟩
        cases bindings with
        | none => cases hbin
        | some list => exact congrArg some hbin
  next =>
    cases h
    cases hiss

theorem singleGatewayPublication_cases (hiss : issueOf (singleGatewayPublication bindings label)=none) :
    (singleGatewayPublication bindings label=none ∧ unpublished bindings=true) ∨
      ∃ hostIp hostPort, singleGatewayPublication bindings label =
          some { hostIp := some hostIp, hostPort := some hostPort } ∧ ExactlyAt bindings hostIp hostPort := by
  cases h : singleGatewayPublication bindings label with
  | none => exact Or.inl ⟨rfl,singleGatewayPublication_eq_none.1 h⟩
  | some publication =>
    rw [h] at hiss
    obtain ⟨hostIp,hostPort,rfl,hexa⟩ := singleGatewayPublication_exact h hiss
    exact Or.inr ⟨hostIp,hostPort,rfl,hexa⟩

end Single

theorem mem_of_get {record : Record Bindings} {target : String} {bindings : Bindings}
    (h : record.get target=some bindings) : (target,bindings) ∈ record.entries := by
  obtain ⟨entry,hent,rfl⟩ := map_eq_some_iff.1 h
  obtain rfl : entry.1=target := by simpa using find?_some hent
  exact mem_of_find?_eq_some hent

theorem unpublished_of_unexpectedIn {table : Option (Record Bindings)} {target : String} (h : unexpectedIn table=[])
    (hloc : target≠localTarget) (hext : target≠externalTarget) :
    unpublished (bindingsAt table target)=true := by
  cases table with
  | none => rfl
  | some record =>
    unfold bindingsAt
    cases hget : record.get target with
    | none => simp [hget,unpublished]
    | some bindings =>
      by_contra hpub
      have hmem : (target,bindings) ∈ record.entries := mem_of_get hget
      have hkep : (target,bindings) ∈ record.entries.filter fun entry =>
          !([externalTarget,localTarget].contains entry.1) && !unpublished entry.2 := by
        refine mem_filter.2 ⟨hmem,?_⟩
        have hjoi : ¬ unpublished bindings=true := by simpa [hget] using hpub
        simp [hloc,hext,hjoi]
      have hin : target ∈ unexpectedIn (some record) := mem_map.2 ⟨_,hkep,rfl⟩
      rw [h] at hin
      cases hin

theorem unexpectedTargets_none {inspection : GatewayPublicationInspection} (h : (unexpectedTargets inspection).isEmpty=true) :
    unexpectedIn inspection.portBindings=[] ∧ unexpectedIn inspection.Ports=[] := by
  have hnon : unexpectedIn inspection.portBindings++unexpectedIn inspection.Ports=[] := by
    refine eq_nil_iff_forall_not_mem.2 fun target hmem => ?_
    have hdis : target ∈ unexpectedTargets inspection := mem_distinct.2 hmem
    rw [List.isEmpty_iff.1 h] at hdis
    cases hdis
  exact append_eq_nil_iff.1 hnon

theorem same_publication {hostIp hostIp' : String} {hostPort hostPort' : ℕ} :
    sameGatewayPublication (some { hostIp := some hostIp, hostPort := some hostPort })
      (some { hostIp := some hostIp', hostPort := some hostPort' })=true ↔ hostIp=hostIp' ∧ hostPort=hostPort' := by
  simp [sameGatewayPublication]

section External
variable {configured observed : Bindings} {running : Bool}

theorem externalPublication_exact (hpla : issueOf (singleGatewayPublication configured "configured")=none)
    (hact : issueOf (singleGatewayPublication observed "observed")=none)
    (h : issueOf (externalPublication running (singleGatewayPublication configured "configured")
      (singleGatewayPublication observed "observed"))=none) :
    (match externalPublication running (singleGatewayPublication configured "configured")
        (singleGatewayPublication observed "observed") with
      | none => unpublished configured=true
      | some publication => ∃ hostIp hostPort, publication.hostIp=some hostIp ∧ publication.hostPort=some hostPort ∧
          ExactlyAt configured hostIp hostPort) ∧
    (unpublished observed=true ∨ Agree configured observed) ∧ (running=true → Agree configured observed) := by
  rcases singleGatewayPublication_cases hpla with ⟨hnon,hunp⟩ | ⟨hostIp,hostPort,hsom,hexa⟩
  · rcases singleGatewayPublication_cases hact with ⟨hnon',hunp'⟩ | ⟨hostIp',hostPort',hsom',hexa'⟩
    · have hout : externalPublication running none none=none := by
        cases running <;> rfl
      rw [hnon,hnon',hout]
      exact ⟨hunp,.inl hunp',fun _ => .inl ⟨hunp,hunp'⟩⟩
    · rw [hnon,hsom'] at h
      cases running <;> cases h
  · rcases singleGatewayPublication_cases hact with ⟨hnon',hunp'⟩ | ⟨hostIp',hostPort',hsom',hexa'⟩
    · rw [hsom,hnon'] at h ⊢
      cases running with
      | true => cases h
      | false => exact ⟨⟨hostIp,hostPort,rfl,rfl,hexa⟩,.inl hunp',fun hnot => by cases hnot⟩
    · rw [hsom,hsom'] at h ⊢
      by_cases hsam : hostIp=hostIp' ∧ hostPort=hostPort'
      · obtain ⟨rfl,rfl⟩ := hsam
        have hout : externalPublication running (some { hostIp := some hostIp, hostPort := some hostPort })
            (some { hostIp := some hostIp, hostPort := some hostPort }) =
              some { hostIp := some hostIp, hostPort := some hostPort } := by
          simp [externalPublication,same_publication]
        have hagr : Agree configured observed := .inr ⟨hostIp,hostPort,hexa,hexa'⟩
        rw [hout]
        exact ⟨⟨hostIp,hostPort,rfl,rfl,hexa⟩,.inr hagr,fun _ => hagr⟩
      · have hdif : sameGatewayPublication (some { hostIp := some hostIp, hostPort := some hostPort })
            (some { hostIp := some hostIp', hostPort := some hostPort' })=false :=
          Bool.eq_false_iff.2 fun heq => hsam (same_publication.1 heq)
        simp [externalPublication,hdif,issueOf] at h

theorem localVerified_exact {expectedLocalPort : ℕ}
    (hpla : issueOf (singleGatewayPublication configured "configured local HTTP")=none)
    (hact : issueOf (singleGatewayPublication observed "observed local HTTP")=none)
    (hver : localPublicationVerified running (singleGatewayPublication configured "configured local HTTP")
      (singleGatewayPublication observed "observed local HTTP")
      (some { hostIp := some "127.0.0.1", hostPort := some expectedLocalPort })=true) :
    ExactlyAt configured "127.0.0.1" expectedLocalPort ∧ (unpublished observed=true ∨ Agree configured observed) ∧
      (running=true → Agree configured observed) := by
  obtain ⟨hsam,hrun⟩ := Bool.and_eq_true_iff.1 hver
  have hcon : ExactlyAt configured "127.0.0.1" expectedLocalPort := by
    rcases singleGatewayPublication_cases hpla with ⟨hnon,-⟩ | ⟨hostIp,hostPort,hsom,hexa⟩
    · rw [hnon] at hsam
      cases hsam
    · rw [hsom] at hsam
      obtain ⟨rfl,rfl⟩ := same_publication.1 hsam
      exact hexa
  refine ⟨hcon,?_⟩
  cases running with
  | false =>
    have hnon:=singleGatewayPublication_eq_none.1 (isNone_iff_eq_none.1 hrun)
    exact ⟨.inl hnon,fun hnot => by cases hnot⟩
  | true =>
    have hagr : Agree configured observed := by
      rcases singleGatewayPublication_cases hact with ⟨hnon,-⟩ | ⟨hostIp,hostPort,hsom,hexa⟩
      · rw [if_pos rfl,hnon] at hrun
        cases hrun
      · rw [if_pos rfl,hsom] at hrun
        obtain ⟨rfl,rfl⟩ := same_publication.1 hrun
        exact .inr ⟨_,_,hcon,hexa⟩
    exact ⟨.inr hagr,fun _ => hagr⟩

end External

theorem issueOf_withTarget (target : Target) (publication : Option GatewayExternalPublication) :
    issueOf (publication.map fun publication => { publication with target := some target })=issueOf publication := by
  cases publication <;> rfl

theorem issueOf_ambiguous {planned actual : Option GatewayExternalPublication}
    (h : ((issueOf planned).isSome || (issueOf actual).isSome)=true) :
    issueOf (if (issueOf actual).isSome then actual else planned)≠none := by
  intro hnon
  split at hnon
  next hact => simp [hnon] at hact
  next hact => simp [hnon,hact] at h

/-- Without an issue nothing is published but the loopback port and the publication that is returned. -/
theorem verified_publication_exact (inspection : GatewayPublicationInspection) (expectedLocalPort : ℕ)
    (h : issueOf (gatewayExternalPublicationFromInspection inspection (some expectedLocalPort))=none) :
    Exact inspection expectedLocalPort (gatewayExternalPublicationFromInspection inspection (some expectedLocalPort)) := by
  generalize hout : gatewayExternalPublicationFromInspection inspection (some expectedLocalPort)=outcome at h ⊢
  unfold gatewayExternalPublicationFromInspection at hout
  simp only [bind_some,map_some,isNone_some,Bool.false_or] at hout
  split at hout
  next hamb =>
    subst hout
    rw [issueOf_withTarget] at h
    exact absurd h (issueOf_ambiguous hamb)
  next hcle =>
    obtain ⟨hpla,hact⟩ : issueOf (singleGatewayPublication (inspection.configured externalTarget) "configured")=none ∧
        issueOf (singleGatewayPublication (inspection.observed externalTarget) "observed")=none := by
      simpa [isSome_iff_ne_none] using hcle
    split at hout
    next hamb =>
      subst hout
      rw [issueOf_withTarget] at h
      exact absurd h (issueOf_ambiguous hamb)
    next hcle' =>
      obtain ⟨hplannedLocal,hactualLocal⟩ :
          issueOf (singleGatewayPublication (inspection.configured localTarget) "configured local HTTP")=none ∧
            issueOf (singleGatewayPublication (inspection.observed localTarget) "observed local HTTP")=none := by
        simpa [isSome_iff_ne_none] using hcle'
      split at hout
      next =>
        subst hout
        cases h
      next hext =>
        split at hout
        next =>
          subst hout
          cases h
        next hexp =>
          split at hout
          next =>
            subst hout
            simp [issueOf] at h
          next hver =>
            subst hout
            obtain ⟨hloo,hlocalObserved,hlocalRunning⟩ :=
              localVerified_exact hplannedLocal hactualLocal (by simpa using hver)
            obtain ⟨hexl,hexternalObserved,hexternalRunning⟩ := externalPublication_exact hpla hact h
            obtain ⟨hcon,hobs⟩ := unexpectedTargets_none (by simpa using hexp)
            have hoth : ∀ target, target≠localTarget → target≠externalTarget →
                unpublished (inspection.configured target)=true ∧ unpublished (inspection.observed target)=true :=
              fun target hloc hexl => ⟨unpublished_of_unexpectedIn hcon hloc hexl,
                unpublished_of_unexpectedIn hobs hloc hexl⟩
            refine ⟨by simpa using hext,hloo,hexl,hoth,fun target => ?_,fun hrun target => ?_⟩
            · by_cases hloc : target=localTarget
              · exact hloc ▸ hlocalObserved
              · by_cases hexl : target=externalTarget
                · exact hexl ▸ hexternalObserved
                · exact .inl (hoth target hloc hexl).2
            · by_cases hloc : target=localTarget
              · exact hloc ▸ hlocalRunning hrun
              · by_cases hexl : target=externalTarget
                · exact hexl ▸ hexternalRunning hrun
                · exact .inl (hoth target hloc hexl)

def exampleBindings : Record Bindings where
  entries := [("3211/tcp",some [some ⟨some "127.0.0.1",some "3211"⟩]),("3216/tcp",some [some ⟨some "0.0.0.0",some "443"⟩]),
    ("3212/udp",none)]
  nodup := by decide

def exampleInspection : GatewayPublicationInspection where
  Running := some true
  HostConfig := some ⟨some false,some exampleBindings⟩
  Ports := some exampleBindings

theorem verified_publication_exact_exposed :
    issueOf (gatewayExternalPublicationFromInspection exampleInspection (some 3211))=none ∧
      Exact exampleInspection 3211 (gatewayExternalPublicationFromInspection exampleInspection (some 3211)) :=
  ⟨by decide,verified_publication_exact exampleInspection 3211 (by decide)⟩

end Qubicl.Cli.Publication
