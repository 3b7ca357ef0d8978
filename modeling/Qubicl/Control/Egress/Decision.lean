import Qubicl.Control.Egress.Ipv6Spelling

/-!
# What a network policy decides (packages/control/src/egress.ts:202-255, 279-284)
-/

namespace Qubicl.Control.Egress
open Foundation Core List
open Gateway (lowerCase)

variable {expiresAt : Option ℤ} {text : String}

section
variable {z : Formats} (node : Network z) (host : String) (policy : EgressNetworkPolicy)

def PortAdmitted (port : ℕ) : Prop :=
  policy.profile=.developer ∨ port=80 ∨ port=443 ∨ policy.profile=.custom ∧ port ∈ policy.allowTcpPorts

def Names (pattern : String) : Prop := domainMatches node (normalizeEgressHostname node host) pattern=true

def AllowedAddress : Prop :=
  z.isIP (normalizeEgressHostname node host)≠0 ∧
    addressAllowedByCidrs node (normalizeEgressHostname node host) policy.allowCidrs=true

/-- The host is denied, or a custom policy does not name it. -/
def NeedsTemporary : Prop :=
  (∃ pattern ∈ policy.denyDomains, Names node host pattern) ∨
    policy.profile=.custom ∧ ¬ AllowedAddress node host policy ∧ ∀ pattern ∈ policy.allowDomains, ¬ Names node host pattern

/-- The expiries of the approvals of the host that have not passed. -/
def Expiries (now : ℤ) : Set ℤ :=
  {expiresAt | now<expiresAt ∧ ∃ entry ∈ policy.temporaryApprovals,
    Names node host entry.domain ∧ node.dateParse entry.expiresAt=some expiresAt}

variable {node host policy} {port : ℕ} {now : ℤ}

theorem head?_insertionSort {l : List ℤ} {a : ℤ} : (l.insertionSort (· ≥ ·)).head? = some a ↔ IsGreatest {b | b ∈ l} a := by
  have hper:=perm_insertionSort (· ≥ ·) l
  have hsor:=pairwise_insertionSort (· ≥ ·) l
  cases hl : l.insertionSort (· ≥ ·) with
  | nil =>
    rw [hl] at hper
    rw [nil_perm.1 hper]
    constructor
    · intro h
      cases h
    · exact fun h => absurd h.1 not_mem_nil
  | cons b rest =>
    rw [hl] at hper hsor
    have hgre : IsGreatest {c | c ∈ l} b := by
      refine ⟨hper.mem_iff.1 mem_cons_self,fun c hc => ?_⟩
      rcases mem_cons.1 (hper.mem_iff.2 hc) with rfl | hrest
      · exact le_rfl
      · exact rel_of_pairwise_cons hsor hrest
    rw [head?_cons,Option.some.injEq]
    exact ⟨fun h => h ▸ hgre,fun h => hgre.unique h⟩

theorem mem_expiries {t : ℤ} : t ∈ ((policy.temporaryApprovals.filter fun entry =>
    domainMatches node (normalizeEgressHostname node host) entry.domain).filterMap
      fun entry => node.dateParse entry.expiresAt).filter (fun expiresAt => now<expiresAt) ↔
      t ∈ Expiries node host policy now := by
  simp only [Set.mem_ofPred_eq,mem_filter,mem_filterMap,decide_eq_true_eq,Expiries,Names]
  constructor
  · intro h
    obtain ⟨⟨entry,⟨hmem,hnam⟩,hdat⟩,hlat⟩ := h
    exact ⟨hlat,entry,hmem,hnam,hdat⟩
  · intro h
    obtain ⟨hlat,entry,hmem,hnam,hdat⟩ := h
    exact ⟨⟨entry,⟨hmem,hnam⟩,hdat⟩,hlat⟩

theorem temporaryUntil_iff {expiresAt : ℤ} :
    temporaryUntil node (normalizeEgressHostname node host) policy now=some expiresAt ↔
      IsGreatest (Expiries node host policy now) expiresAt := by
  unfold temporaryUntil
  rw [head?_insertionSort]
  exact iff_of_eq (congrArg (IsGreatest · expiresAt) (Set.ext fun t => mem_expiries))

theorem exists_greatest {t : ℤ} (h : t ∈ Expiries node host policy now) : ∃ u, IsGreatest (Expiries node host policy now) u := by
  cases htem : temporaryUntil node (normalizeEgressHostname node host) policy now with
  | some u => exact ⟨u,temporaryUntil_iff.1 htem⟩
  | none =>
    have hnil:=head?_eq_none_iff.1 htem
    have hmem:=(perm_insertionSort (· ≥ ·) _).mem_iff.2 (mem_expiries.2 h)
    rw [hnil] at hmem
    cases hmem

theorem temporarily_iff {needs : Bool} {temporary : Option ℤ} {reason : String} :
    temporarily needs temporary reason=.allowed expiresAt ↔
      needs=false ∧ expiresAt=none ∨ needs=true ∧ ∃ t, temporary=some t ∧ expiresAt=some t := by
  cases needs <;> cases temporary <;> simp [temporarily,eq_comm]

theorem policyAllows_iff :
    policyAllows node host port policy now=.allowed expiresAt ↔ policy.profile≠.offline ∧ PortAdmitted policy port ∧
      (¬ NeedsTemporary node host policy ∧ expiresAt=none ∨ NeedsTemporary node host policy ∧
        ∃ t, IsGreatest (Expiries node host policy now) t ∧ expiresAt=some t) := by
  have hnee : (policy.denyDomains.any (domainMatches node (normalizeEgressHostname node host)) ||
      (policy.profile == .custom && !(z.isIP (normalizeEgressHostname node host) != 0 &&
        addressAllowedByCidrs node (normalizeEgressHostname node host) policy.allowCidrs) &&
        !policy.allowDomains.any (domainMatches node (normalizeEgressHostname node host))))=true ↔
      NeedsTemporary node host policy := by
    simp only [NeedsTemporary,AllowedAddress,Names,Bool.or_eq_true,Bool.and_eq_true,any_eq_true,Bool.not_eq_true',
      Bool.and_eq_false_iff,bne_eq_false_iff_eq,any_eq_false,beq_iff_eq,and_assoc,not_and_or,not_not,
      Bool.not_eq_true]
  unfold policyAllows
  by_cases hoff : policy.profile=.offline
  · simp [hoff]
  by_cases hweb : policy.profile=.webOnly ∧ port≠80 ∧ port≠443
  · simp [hweb,PortAdmitted]
  by_cases hcus : policy.profile=.custom ∧ port≠80 ∧ port≠443 ∧ port ∉ policy.allowTcpPorts
  · simp [hcus,PortAdmitted]
  have hpor : PortAdmitted policy port := by
    unfold PortAdmitted
    by_contra hnon
    simp only [not_or,not_and] at hnon hweb hcus
    cases hpro : policy.profile with
    | offline => exact hoff hpro
    | developer => exact hnon.1 hpro
    | webOnly => exact hweb hpro hnon.2.1 hnon.2.2.1
    | custom => exact hcus hpro hnon.2.1 hnon.2.2.1 (hnon.2.2.2 hpro)
  simp only [if_neg hoff,if_neg hweb,if_neg hcus]
  rw [temporarily_iff,Bool.eq_false_iff,Ne,hnee]
  simp only [temporaryUntil_iff]
  exact ⟨fun h => ⟨hoff,hpor,h⟩,fun h => h.2.2⟩

/-- Another deny pattern approves nothing. -/
theorem policyAllows_deny {denyDomains : List String} (hsub : policy.denyDomains ⊆ denyDomains)
    (h : (policyAllows node host port policy now).isAllowed=false) :
    (policyAllows node host port { policy with denyDomains } now).isAllowed=false := by
  cases hnew : policyAllows node host port { policy with denyDomains } now with
  | refused => rfl
  | allowed expiresAt =>
    obtain ⟨hoff,hpor,hdec⟩ := policyAllows_iff.1 hnew
    have hold : ∃ e, policyAllows node host port policy now=.allowed e := by
      by_cases hnee : NeedsTemporary node host policy
      · have hnewNeeds : NeedsTemporary node host { policy with denyDomains } :=
          hnee.imp_left fun hden => hden.imp fun _ hmem => ⟨hsub hmem.1,hmem.2⟩
        rcases hdec with hfre | ⟨-,t,hgre,-⟩
        · exact absurd hnewNeeds hfre.1
        · exact ⟨some t,policyAllows_iff.2 ⟨hoff,hpor,Or.inr ⟨hnee,t,hgre,rfl⟩⟩⟩
      · exact ⟨none,policyAllows_iff.2 ⟨hoff,hpor,Or.inl ⟨hnee,rfl⟩⟩⟩
    obtain ⟨e,he⟩ := hold
    rw [he] at h
    cases h

/-- With another approval a connection lasts as long or longer. -/
theorem policyAllows_approve {temporaryApprovals : List TemporaryApproval}
    (hsub : policy.temporaryApprovals ⊆ temporaryApprovals)
    (h : policyAllows node host port policy now=.allowed expiresAt) :
    ∃ later, policyAllows node host port { policy with temporaryApprovals } now=.allowed later ∧
      (expiresAt=none → later=none) ∧ ∀ t, expiresAt=some t → ∃ u, later=some u ∧ t≤u := by
  obtain ⟨hoff,hpor,⟨hnee,rfl⟩ | ⟨hnee,t,hgre,rfl⟩⟩ := policyAllows_iff.1 h
  · exact ⟨none,policyAllows_iff.2 ⟨hoff,hpor,Or.inl ⟨hnee,rfl⟩⟩,fun _ => rfl,fun _ hsom => absurd hsom (by simp)⟩
  · have hkep : t ∈ Expiries node host { policy with temporaryApprovals } now := by
      obtain ⟨hlat,entry,hmem,hnam⟩ := hgre.1
      exact ⟨hlat,entry,hsub hmem,hnam⟩
    obtain ⟨u,hu⟩ := exists_greatest hkep
    refine ⟨some u,policyAllows_iff.2 ⟨hoff,hpor,Or.inr ⟨hnee,u,hu,rfl⟩⟩,fun hnon => absurd hnon (by simp),?_⟩
    intro t' ht'
    cases ht'
    exact ⟨u,rfl,hu.2 hkep⟩

end

section
variable (z : Formats)

/-- Two texts of one host. -/
inductive Respelled : String → String → Prop
  | letters {host other : String} (h : lowerCase host=lowerCase other) : Respelled host other
  | dot {host : String} (h : host.toList.getLast? ≠ some '.') : Respelled host (host ++ ".")
  | address {bytes : List UInt8} {a b : String} (ha : Spelling bytes a) (hb : Spelling bytes b) (hipa : z.isIP a=6)
    (hipb : z.isIP b=6) (hzonea : '%' ∉ a.toList) (hzoneb : '%' ∉ b.toList) : Respelled a b
  | brackets {a : String} (hip : z.isIP a=6) (hzone : '%' ∉ a.toList) : Respelled a (bracketed a)

abbrev SameHost : String → String → Prop := Relation.EqvGen (Respelled z)

structure SamePatterns (policy other : EgressNetworkPolicy) : Prop where
  profile : policy.profile=other.profile
  denyDomains : List.Forall₂ (SameHost z) policy.denyDomains other.denyDomains
  allowDomains : List.Forall₂ (SameHost z) policy.allowDomains other.allowDomains
  allowCidrs : policy.allowCidrs=other.allowCidrs
  allowTcpPorts : policy.allowTcpPorts=other.allowTcpPorts
  temporaryApprovals : List.Forall₂ (fun a b => SameHost z a.domain b.domain ∧ a.expiresAt=b.expiresAt)
    policy.temporaryApprovals other.temporaryApprovals

end

section
variable {z : Formats} {node : Network z} {host other : String} {policy respelled : EgressNetworkPolicy} {port : ℕ} {now : ℤ}

/-- A URL has one form for the sixteen bytes of an address. -/
def OneForm (node : Network z) : Prop :=
  ∀ bytes a b, Spelling bytes a → Spelling bytes b → z.isIP a=6 → z.isIP b=6 → '%' ∉ a.toList → '%' ∉ b.toList →
    (node.url (addressUrl a)).map (·.hostname)=(node.url (addressUrl b)).map (·.hostname)

theorem normalize_address {address : String} (hip : z.isIP address=6) (hzone : '%' ∉ address.toList) :
    normalizeEgressHostname node address=addressForm node (lowerCase address) := by
  obtain ⟨-,-,-,-,hlow⟩ := node.isIP6 _ hip
  obtain ⟨-,hope,-,hdot,-⟩ := node.isIP6 _ hlow
  rw [normalizeEgressHostname,withoutDot_eq_self (hdot (delimiter_lowerCase (by decide) hzone)),bareHost_plain hope]

theorem Spelling.lower {bytes : List UInt8} (h : Spelling bytes text) : Spelling bytes (lowerCase text) := by
  obtain ⟨hlen,body,zone,htex,hres⟩ := h
  refine ⟨hlen,body,zone,?_,hres⟩
  rw [lowerCase,String.toList_map,map_map,← htex]
  exact map_congr_left fun c _ => Gateway.toLower_toLower c

theorem Respelled.normalize (hfor : OneForm node) (h : Respelled z host other) :
    normalizeEgressHostname node host=normalizeEgressHostname node other := by
  cases h with
  | letters h => rw [normalizeEgressHostname,normalizeEgressHostname,h]
  | dot h =>
    have hlas : withoutDot (host ++ ".")=host := by
      unfold withoutDot
      rw [if_pos (by simp)]
      simp
    rw [normalizeEgressHostname,normalizeEgressHostname,withoutDot_lowerCase,withoutDot_lowerCase,hlas,withoutDot_eq_self h]
  | @address bytes a b ha hb hipa hipb hzonea hzoneb =>
    obtain ⟨normal,hurl,-⟩ := node.address host "1" 1 hipa hzonea ⟨by decide,by decide,by decide⟩ (by decide)
    have hsam:=hfor bytes _ _ ha.lower hb.lower (node.isIP6 _ hipa).2.2.2.2 (node.isIP6 _ hipb).2.2.2.2
      (delimiter_lowerCase (by decide) hzonea) (delimiter_lowerCase (by decide) hzoneb)
    rw [normalizeEgressHostname_address node hipa hzonea hurl,
      normalizeEgressHostname_address node hipb hzoneb (hsam.symm.trans hurl)]
  | brackets hip hzone =>
    have hlow : lowerCase (bracketed host)=bracketed (lowerCase host) := by
      rw [← String.toList_inj]
      simp [lowerCase,bracketed]
    have hdot : (bracketed (lowerCase host)).toList.getLast? ≠ some '.' := by simp [bracketed,getLast?_cons]
    rw [normalize_address hip hzone,normalizeEgressHostname,hlow,withoutDot_eq_self hdot,
      bareHost_bracketed (node.isIP6 _ hip).2.2.2.2]

theorem normalize_sameHost (hfor : OneForm node) (h : SameHost z host other) :
    normalizeEgressHostname node host=normalizeEgressHostname node other := by
  induction h with
  | rel _ _ h => exact h.normalize hfor
  | refl => rfl
  | symm _ _ _ ih => exact ih.symm
  | trans _ _ _ _ _ ih ih' => exact ih.trans ih'

theorem domainMatches_sameHost (hfor : OneForm node) {pattern pattern' : String} (h : SameHost z pattern pattern') :
    domainMatches node host pattern=domainMatches node host pattern' := by
  rw [domainMatches,domainMatches,normalize_sameHost hfor h]

theorem any_sameHosts (hfor : OneForm node) {patterns patterns' : List String}
    (h : List.Forall₂ (SameHost z) patterns patterns') :
    patterns.any (domainMatches node host)=patterns'.any (domainMatches node host) := by
  induction h with
  | nil => rfl
  | cons hfir _ ih => rw [any_cons,any_cons,domainMatches_sameHost hfor hfir,ih]

theorem temporaryUntil_sameHosts (hfor : OneForm node) (h : SamePatterns z policy respelled) :
    temporaryUntil node host policy now=temporaryUntil node host respelled now := by
  have hdat : (policy.temporaryApprovals.filter fun entry => domainMatches node host entry.domain).filterMap
      (fun entry => node.dateParse entry.expiresAt)=(respelled.temporaryApprovals.filter fun entry =>
        domainMatches node host entry.domain).filterMap fun entry => node.dateParse entry.expiresAt := by
    have happ:=h.temporaryApprovals
    generalize policy.temporaryApprovals=entries at happ
    generalize respelled.temporaryApprovals=entries' at happ
    induction happ with
    | nil => rfl
    | cons hfir _ ih =>
      obtain ⟨hdom,hexp⟩ := hfir
      rw [filter_cons,filter_cons,domainMatches_sameHost hfor hdom]
      split
      · rw [filterMap_cons,filterMap_cons,hexp,ih]
      · exact ih
  unfold temporaryUntil
  rw [hdat]

theorem policyAllows_respelled (hfor : OneForm node) (hhos : SameHost z host other) (h : SamePatterns z policy respelled) :
    policyAllows node other port respelled now=policyAllows node host port policy now := by
  unfold policyAllows
  simp only [normalize_sameHost hfor hhos,h.profile,h.allowCidrs,h.allowTcpPorts,any_sameHosts hfor h.denyDomains,
    any_sameHosts hfor h.allowDomains,temporaryUntil_sameHosts hfor h]

end

def denies (pattern : String) : EgressNetworkPolicy := ⟨.developer,[],[pattern],[],[],[]⟩

def zones : List String := ["fe80::1%eth0","fe80:0::1%eth0"]

def zonedFormats : Formats := { namesAndAddress with isIP := fun value => if value ∈ zones then 6 else 0 }

theorem mem_zones (h : zonedFormats.isIP text=6) : text="fe80::1%eth0" ∨ text="fe80:0::1%eth0" := by
  simp only [zonedFormats] at h
  split at h
  next hmem => simpa [zones] using hmem
  next => cases h

theorem lower_self (h : ∀ c ∈ text.toList, c.toLower=c) : lowerCase text=text :=
  Gateway.lowerCase_eq_self.2 h

/-- A node that knows two texts of an address with a zone. -/
def zonedNetwork : Network zonedFormats where
  url := tcpUrl
  check _ _ _ := false
  dateParse _ := none
  isIP6 text h := by
    rcases mem_zones h with rfl | rfl
    all_goals
      rw [lower_self (forall_chars (by decide))]
      decide
  hostname text u h := Or.inr ((tcpNetwork.hostname text u h).resolve_left fun hnone =>
    hnone.elim fun address haddress => notIP6 address haddress.2.1)
  port := tcpNetwork.port
  name := tcpNetwork.name
  address address _ _ h hzone := by
    rcases mem_zones h with rfl | rfl <;> exact absurd (by decide) hzone

def linkLocal : List UInt8 := [0xfe,0x80,0,0,0,0,0,0,0,0,0,0,0,0,0,1]

theorem zones_spelling : ∀ text ∈ zones, Spelling linkLocal text := by
  have hfir : HexWord 0xfe80 "fe80".toList := ⟨by decide,forall_chars (by decide),by decide⟩
  have hlas : HexWord 1 "1".toList := ⟨by decide,forall_chars (by decide),by decide⟩
  have hzer : HexWord 0 "0".toList := ⟨by decide,forall_chars (by decide),by decide⟩
  intro text htex
  rcases mem_zones (if_pos htex) with rfl | rfl
  · exact ⟨rfl,_,"%eth0".toList,by decide,Or.inr rfl,.elided (n := 5) rfl (Or.inr (.word hfir)) (Or.inr (.word hlas))⟩
  · exact ⟨rfl,_,"%eth0".toList,by decide,Or.inr rfl,
      .elided (n := 4) rfl (Or.inr (.cons hfir (.word hzer))) (Or.inr (.word hlas))⟩

end Qubicl.Control.Egress
