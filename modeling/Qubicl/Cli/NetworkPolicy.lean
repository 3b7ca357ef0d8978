import Qubicl.Control.Egress.Policy

/-!
# What `qubicl network explain` reports (packages/cli/src/network-policy.ts:67-120)

An operator reads from the explanation what the egress proxy will let through.
-/

namespace Qubicl.Cli.NetworkPolicy
open Foundation Core Control.Egress List
open Gateway (lowerCase)

structure Explanation where
  host : String
  port : ℕ
  profile : NetworkProfile
  allowedByNamedRules : Bool
  reason : String
  enforcement : String
  dns : String
  privateDestinations : String
  note : String
  deriving DecidableEq, Repr

section Explanation
variable {z : Formats} (node : Network z)

def shownHost (url : Url) : String := withoutDot (withoutBrackets (lowerCase url.hostname))

def portOf (url : Url) : ℕ :=
  url.port.getD (if url.protocol = "https:" then 443 else if url.protocol = "http:" then 80 else 0)

def targetUrl (target : String) : Option Url :=
  if "://".toList <:+: target.toList then node.url target else node.url ("tcp://" ++ target)

def explainTarget (target : String) : Except String (String × ℕ) :=
  match targetUrl node target with
  | none => .error "Network explanation target must be an HTTP(S) URL or host:port."
  | some url =>
    let host:=shownHost url
    let port:=portOf url
    if host = "" ∨ port<1 ∨ 65535<port then .error "Network explanation target requires a valid port."
    else .ok (host,port)

def active (now : ℤ) (approval : TemporaryApproval) : Bool :=
  (node.dateParse approval.expiresAt).any fun expiresAt => decide (now<expiresAt)

def temporaryApproval (policy : EgressNetworkPolicy) (host : String) (now : ℤ) : Option TemporaryApproval :=
  ((policy.temporaryApprovals.filter fun approval => patternMatches host approval.domain && active node now approval)
    |>.insertionSort fun a b => (node.dateParse b.expiresAt).getD 0≤(node.dateParse a.expiresAt).getD 0).head?

def customReason (host : String) (port : ℕ) (portAllowed domainAllowed addressAllowed : Bool) :
    Option TemporaryApproval → String := fun temporary =>
  if !portAllowed then "Port " ++ toString port ++ " is outside the custom TCP allowlist."
  else if domainAllowed then host ++ " matches an explicit domain allow rule."
  else if addressAllowed then host ++ " matches an explicit CIDR allow rule."
  else match temporary with
    | some approval => host ++ " has a temporary approval until " ++ approval.expiresAt ++ "."
    | none => host ++ " does not match an explicit domain rule. CIDR rules are evaluated after DNS resolution at connection time."

def explainProfile (policy : EgressNetworkPolicy) (host : String) (port : ℕ) (domainAllowed addressAllowed : Bool)
    (temporary : Option TemporaryApproval) : Bool × String × String :=
  let portAllowed:=port == 80 || port == 443 || policy.allowTcpPorts.contains port
  match policy.profile with
  | .developer => (true,"Developer profile permits direct workload egress; Qubicl domain deny rules do not constrain arbitrary direct connections in this profile.",
      "direct-workload-network")
  | .offline => (false,"The offline profile disables outbound networking.","isolated-network")
  | .webOnly => (port == 80 || port == 443,
      if port == 80 || port == 443 then "The mediated web-only profile permits HTTP and HTTPS to public destinations."
      else "Port " ++ toString port ++ " is outside the web-only port set.",
      "authenticated-egress-proxy")
  | .custom => (portAllowed && (domainAllowed || addressAllowed || temporary.isSome),
      customReason host port portAllowed domainAllowed addressAllowed temporary,"authenticated-egress-proxy")

def explainHost (policy : EgressNetworkPolicy) (host : String) (port : ℕ) (now : ℤ) : Explanation :=
  let temporary:=temporaryApproval node policy host now
  let denied:=policy.denyDomains.any (patternMatches host)
  let domainAllowed:=policy.allowDomains.any (patternMatches host)
  let addressAllowed:=z.isIP host != 0 && addressAllowedByCidrs node host policy.allowCidrs
  let byProfile:=explainProfile policy host port domainAllowed addressAllowed temporary
  let overruled:=policy.profile != .developer && denied && temporary.isNone
  { host, port
    profile := policy.profile
    allowedByNamedRules := !overruled && byProfile.1
    reason := if overruled then host ++ " matches a deny rule and has no active temporary approval." else byProfile.2.1
    enforcement := byProfile.2.2
    dns := if policy.profile=.developer then "workload-resolver" else "proxy-resolves-and-pins-one-approved-address"
    privateDestinations :=
      if policy.profile=.developer then "directly reachable according to Docker/host routing"
      else if policy.allowCidrs≠[] then "only approved CIDRs: " ++ ", ".intercalate policy.allowCidrs else "denied"
    note := "This is a deterministic policy explanation. It does not resolve DNS or make a network request." }

def explainNetworkPolicy (policy : NetworkPolicy) (target : String) (now : ℤ) : Except String Explanation :=
  (explainTarget node target).map fun (host,port) => explainHost node (parsePolicy policy) host port now

def reportsAllowed (policy : NetworkPolicy) (target : String) (now : ℤ) : Bool :=
  match explainNetworkPolicy node policy target now with
  | .ok explanation => explanation.allowedByNamedRules
  | .error _ => false

inductive Names : String → String → ℕ → Prop
  | name (host digits : String) (port : ℕ) : withoutDot host ≠ "" → host.toList.all nameChar=true →
      portText digits port → 1≤port → port≤65535 → Names (host ++ ":" ++ digits) host port
  | address (address digits : String) (port : ℕ) : z.isIP address=6 → '%' ∉ address.toList →
      portText digits port → 1≤port → port≤65535 → Names (bracketed address ++ ":" ++ digits) address port
  | url (target : String) (url : Url) : "://".toList <:+: target.toList → node.url target=some url →
      withoutDot url.hostname ≠ "" → url.protocol = "http:" ∨ url.protocol = "https:" →
      Names target url.hostname (url.port.getD (if url.protocol = "https:" then 443 else 80))

end Explanation

variable {url : Url}

section Targets
variable {z : Formats} {node : Network z} {target host : String} {port : ℕ}

/- What a URL's host is shown as: what the proxy takes the host to be. -/
theorem shownHost_url (h : node.url target=some url) :
    shownHost url=normalizeEgressHostname node url.hostname ∧ lowerCase (shownHost url)=shownHost url := by
  rcases node.hostname _ _ h with ⟨address,hhos,hip,hlow,hzon,hnor⟩ | hname
  · obtain ⟨-,-,-,hdot,-⟩ := node.isIP6 _ hip
    have hsho : shownHost url=address := by
      rw [shownHost,hhos,lowerCase_bracketed hlow,withoutBrackets_bracketed,withoutDot_eq_self (hdot hzon)]
    rw [hsho,hhos,normalizeEgressHostname_bracketed node hip hlow hzon hnor]
    exact ⟨rfl,hlow⟩
  · have hope : '[' ∉ url.hostname.toList := fun hc => (hname _ hc).1 rfl
    have hclo : ']' ∉ url.hostname.toList := fun hc => (hname _ hc).2.1 rfl
    have hcol : ':' ∉ url.hostname.toList := fun hc => (hname _ hc).2.2 rfl
    have hsho : shownHost url=withoutDot (lowerCase url.hostname) := by
      rw [shownHost,withoutBrackets_plain (delimiter_lowerCase (by decide) hope)
        (delimiter_lowerCase (by decide) hclo)]
    rw [hsho,normalizeEgressHostname_name node hope hcol,withoutDot_lowerCase]
    exact ⟨rfl,Gateway.lowerCase_lowerCase _⟩

theorem shownHost_ne_empty (h : node.url target=some url) (hnam : withoutDot url.hostname ≠ "") :
    shownHost url ≠ "" := by
  rw [(shownHost_url h).1]
  rcases node.hostname _ _ h with ⟨address,hhos,hip,hlow,hzon,hnor⟩ | hplain
  · rw [hhos,normalizeEgressHostname_bracketed node hip hlow hzon hnor]
    rintro rfl
    exact absurd (node.isIP6 _ hip).1 (by simp)
  · rw [normalizeEgressHostname_name node (fun hc => (hplain _ hc).1 rfl) (fun hc => (hplain _ hc).2.2 rfl),
      withoutDot_lowerCase]
    exact lowerCase_ne_empty hnam

theorem shownHost_address {normal : String} (h : node.url target=some url) (hhos : url.hostname=bracketed normal) :
    shownHost url ≠ "" ∧ shownHost url=normal := by
  have hsam : shownHost url=normal := by
    rcases node.hostname _ _ h with ⟨address,hadd,hip,hlow,hzon,hnor⟩ | hplain
    · have hinn : normal=address := by rw [← inner_bracketed normal,← hhos,hadd,inner_bracketed]
      rw [(shownHost_url h).1,hadd,normalizeEgressHostname_bracketed node hip hlow hzon hnor,hinn]
    · exact absurd rfl (hplain '[' (by simp [hhos,bracketed])).1
  refine ⟨fun hemp => ?_,hsam⟩
  rw [hsam] at hemp
  refine shownHost_ne_empty h ?_ (hsam.trans hemp)
  rw [hhos,hemp]
  decide

theorem schemeless {text digits : String} (htex : '/' ∉ text.toList) (hdig : portText digits port) :
    ¬ "://".toList <:+: (text ++ ":" ++ digits).toList := by
  intro hsch
  have hslash : '/' ∈ (text ++ ":" ++ digits).toList := hsch.mem (by decide)
  simp only [String.toList_append,mem_append] at hslash
  rcases hslash with (hslash | hslash) | hslash
  · exact htex hslash
  · exact absurd hslash (by decide)
  · exact absurd (all_eq_true.1 hdig.2.1 _ hslash) (by decide)

theorem explainTarget_found (hfou : targetUrl node target=some url) (hne : shownHost url ≠ "") (hlow : 1≤portOf url)
    (hhig : portOf url≤65535) : explainTarget node target=.ok (shownHost url,portOf url) := by
  unfold explainTarget
  rw [hfou]
  have hval : ¬ (shownHost url = "" ∨ portOf url<1 ∨ 65535<portOf url) := by
    rintro (h | h | h)
    · exact hne h
    · omega
    · omega
  exact if_neg hval

theorem portOf_le (h : node.url target=some url) : portOf url≤65535 := by
  unfold portOf
  cases hpor : url.port with
  | none =>
    rw [Option.getD_none]
    split_ifs <;> omega
  | some port => exact node.port _ _ _ h hpor

theorem explainTarget_named (h : Names node target host port) (hpor : 1≤port) :
    explainTarget node target=.ok (normalizeEgressHostname node host,port) ∧
      lowerCase (normalizeEgressHostname node host)=normalizeEgressHostname node host := by
  cases h with
  | name host digits port hne hcha hdig _ hbou =>
    have hsla : '/' ∉ host.toList := fun hc => absurd (all_eq_true.1 hcha _ hc) (by decide)
    have hemp : host ≠ "" := by
      rintro rfl
      exact hne rfl
    have hurl:=node.name host digits port hemp hcha hdig hbou
    obtain ⟨hsho,hlow⟩ := shownHost_url hurl
    have hfou : targetUrl node (host ++ ":" ++ digits)=some _ := (if_neg (schemeless hsla hdig)).trans hurl
    rw [hsho] at hlow
    rw [explainTarget_found hfou (shownHost_ne_empty hurl hne) hpor hbou,hsho]
    exact ⟨rfl,hlow⟩
  | address host digits port hip hzon hdig _ hbou =>
    obtain ⟨normal,hnor,hurl⟩ := node.address host digits port hip hzon hdig hbou
    obtain ⟨-,-,hsla,-,-⟩ := node.isIP6 _ hip
    have hsla' : '/' ∉ (bracketed host).toList := by simpa [bracketed] using hsla
    obtain ⟨hsho,hlow⟩ := shownHost_url hurl
    have hfou : targetUrl node (bracketed host ++ ":" ++ digits)=some _ :=
      (if_neg (schemeless hsla' hdig)).trans hurl
    obtain ⟨hvis,hsam⟩ := shownHost_address hurl rfl
    rw [hsam] at hlow
    rw [normalizeEgressHostname_address node hip hzon hnor,
      explainTarget_found hfou hvis hpor hbou,hsam]
    exact ⟨rfl,hlow⟩
  | url target url hsch hurl hne hpro =>
    have hdef : url.port.getD (if url.protocol = "https:" then 443 else 80)=portOf url := by
      rcases hpro with h | h <;> rw [portOf,h] <;> rfl
    rw [hdef] at hpor ⊢
    obtain ⟨hsho,hlow⟩ := shownHost_url hurl
    have hfou : targetUrl node target=some url := (if_pos hsch).trans hurl
    rw [hsho] at hlow
    rw [explainTarget_found hfou (shownHost_ne_empty hurl hne) hpor (portOf_le hurl),hsho]
    exact ⟨rfl,hlow⟩

theorem explainTarget_closed (h : Names node target host 0) :
    explainTarget node target=.error "Network explanation target requires a valid port." := by
  generalize hpor : 0=port at h
  cases h with
  | name _ _ _ _ _ _ hlow _ => omega
  | address _ _ _ _ _ _ hlow _ => omega
  | url target url hsch hurl hne hpro =>
    have hclo : portOf url=0 := by
      rw [hpor]
      rcases hpro with h | h <;> rw [portOf,h] <;> rfl
    have hfou : targetUrl node target=some url := (if_pos hsch).trans hurl
    unfold explainTarget
    rw [hfou]
    exact if_pos (Or.inr (Or.inl (by omega)))

end Targets

section Agreement
variable {z : Formats} (node : Network z)

def capitals (pattern : String) : Bool := lowerCase pattern != pattern

/- Whether a host is covered by patterns that are written with capitals, or by patterns that are not. -/
def covers (written : Bool) (host : String) (patterns : List String) : Bool :=
  patterns.any fun pattern => capitals pattern == written && domainMatches node host pattern

def approves (written : Bool) (host : String) (policy : EgressNetworkPolicy) (now : ℤ) : Bool :=
  policy.temporaryApprovals.any fun approval =>
    capitals approval.domain == written && domainMatches node host approval.domain && active node now approval

def portPermitted (policy : EgressNetworkPolicy) (port : ℕ) : Prop :=
  port=80 ∨ port=443 ∨ policy.profile=.custom ∧ port ∈ policy.allowTcpPorts

def inScope (policy : EgressNetworkPolicy) (host : String) : Prop :=
  policy.profile=.webOnly ∨ z.isIP host≠0 ∧ addressAllowedByCidrs node host policy.allowCidrs=true ∨
    covers node false host policy.allowDomains=true

/-- Where the patterns with capitals change nothing. -/
inductive CapitalsIdle (policy : EgressNetworkPolicy) (host : String) (port : ℕ) (now : ℤ) : Prop
  | offline : policy.profile=.offline → CapitalsIdle policy host port now
  | port : ¬ portPermitted policy port → CapitalsIdle policy host port now
  | approved : approves node false host policy now=true → CapitalsIdle policy host port now
  | admitted : approves node true host policy now=true → inScope node policy host →
      covers node false host policy.denyDomains=false → CapitalsIdle policy host port now
  | denied : approves node true host policy now=false → covers node false host policy.denyDomains=true →
      CapitalsIdle policy host port now
  | within : approves node true host policy now=false → inScope node policy host →
      covers node true host policy.denyDomains=false → CapitalsIdle policy host port now
  | outside : approves node true host policy now=false → ¬ inScope node policy host →
      covers node true host policy.denyDomains=true ∨ covers node true host policy.allowDomains=false →
      CapitalsIdle policy host port now

variable {node} {policy : EgressNetworkPolicy} {host : String} {port : ℕ} {now : ℤ}

theorem patternMatches_written (hlow : lowerCase host=host) {pattern : String}
    (h : domainPattern pattern=true) :
    patternMatches host pattern=(capitals pattern == false && domainMatches node host pattern) := by
  rw [patternMatches_eq node hlow h,capitals,bne]
  cases lowerCase pattern == pattern <;> rfl

theorem any_patternMatches (hlow : lowerCase host=host) {patterns : List String}
    (h : ∀ pattern ∈ patterns, domainPattern pattern=true) :
    patterns.any (patternMatches host)=covers node false host patterns := by
  unfold covers
  induction patterns with
  | nil => rfl
  | cons pattern rest ih =>
    rw [any_cons,any_cons,patternMatches_written hlow (h pattern mem_cons_self),
      ih fun other hoth => h other (mem_cons_of_mem _ hoth)]

theorem any_domainMatches (patterns : List String) :
    patterns.any (domainMatches node host)=(covers node false host patterns || covers node true host patterns) := by
  unfold covers
  induction patterns with
  | nil => rfl
  | cons pattern rest ih =>
    simp only [any_cons,ih]
    cases capitals pattern <;> simp [Bool.or_left_comm,Bool.or_assoc]

theorem isSome_head?_insertionSort {α : Type} {r : α → α → Prop} [DecidableRel r] {xs : List α} :
    (xs.insertionSort r).head?.isSome=true ↔ ∃ x, x ∈ xs := by
  constructor
  · intro h
    obtain ⟨x,hx⟩ := Option.isSome_iff_exists.1 h
    exact ⟨x,(mem_insertionSort r).1 (mem_of_mem_head? hx)⟩
  · rintro ⟨x,hx⟩
    have hsor:=(mem_insertionSort r).2 hx
    cases hlis : xs.insertionSort r with
    | nil =>
      rw [hlis] at hsor
      cases hsor
    | cons y rest => rfl

theorem active_iff {approval : TemporaryApproval} :
    active node now approval=true ↔ ∃ expiresAt, node.dateParse approval.expiresAt=some expiresAt ∧ now<expiresAt := by
  simp [active,Option.any_eq_true]

theorem isSome_temporaryApproval (hlow : lowerCase host=host)
    (h : ∀ approval ∈ policy.temporaryApprovals, domainPattern approval.domain=true) :
    (temporaryApproval node policy host now).isSome=approves node false host policy now := by
  rw [Bool.eq_iff_iff,temporaryApproval,isSome_head?_insertionSort,approves,any_eq_true]
  refine exists_congr fun approval => ?_
  rw [mem_filter]
  refine and_congr_right fun hmem => ?_
  rw [patternMatches_written hlow (h approval hmem)]

theorem isSome_temporaryUntil :
    (temporaryUntil node host policy now).isSome =
      (approves node false host policy now || approves node true host policy now) := by
  rw [Bool.eq_iff_iff,temporaryUntil,isSome_head?_insertionSort,Bool.or_eq_true]
  simp only [approves,any_eq_true,mem_filter,mem_filterMap,decide_eq_true_eq,Bool.and_eq_true,
    active_iff]
  constructor
  · rintro ⟨expiresAt,⟨approval,⟨hmem,hmat⟩,hdat⟩,hlat⟩
    cases hwri : capitals approval.domain with
    | false => exact Or.inl ⟨approval,hmem,⟨by simpa using hwri,hmat⟩,expiresAt,hdat,hlat⟩
    | true => exact Or.inr ⟨approval,hmem,⟨by simpa using hwri,hmat⟩,expiresAt,hdat,hlat⟩
  · rintro (⟨approval,hmem,⟨-,hmat⟩,expiresAt,hdat,hlat⟩ |
      ⟨approval,hmem,⟨-,hmat⟩,expiresAt,hdat,hlat⟩)
    all_goals exact ⟨expiresAt,⟨approval,⟨hmem,hmat⟩,hdat⟩,hlat⟩

structure Accepted (policy : EgressNetworkPolicy) : Prop where
  allowed : ∀ pattern ∈ policy.allowDomains, domainPattern pattern=true
  denied : ∀ pattern ∈ policy.denyDomains, domainPattern pattern=true
  approved : ∀ approval ∈ policy.temporaryApprovals, domainPattern approval.domain=true
  ports : ∀ port ∈ policy.allowTcpPorts, 1≤port

theorem accepted_parse {given policy : NetworkPolicy} (h : (networkPolicySchema z).parse given=some policy) :
    Accepted (parsePolicy policy) := by
  obtain ⟨hfie,hfil⟩ := Option.ite_none_right_eq_some.1 h
  cases hfil
  have hall : ∀ {α : Type} {p : List α → Bool} {o : Option (List α)}, p []=true → o.all p=true →
      p (o.getD [])=true := by
    intro α p o hnil ho
    cases o with
    | none => exact hnil
    | some xs => exact ho
  simp only [networkPolicyFields,Bool.and_eq_true] at hfie
  obtain ⟨⟨⟨⟨halw,hden⟩,-⟩,hpor⟩,happ⟩ := hfie
  have halw:=(Bool.and_eq_true_iff.1 (hall rfl halw)).2
  have hden:=(Bool.and_eq_true_iff.1 (hall rfl hden)).2
  have hpor:=(Bool.and_eq_true_iff.1 (Bool.and_eq_true_iff.1 (hall rfl hpor)).1).2
  have happ:=(Bool.and_eq_true_iff.1 (hall rfl happ)).2
  exact ⟨all_eq_true.1 halw,all_eq_true.1 hden,
    fun approval hmem => (Bool.and_eq_true_iff.1 (all_eq_true.1 happ approval hmem)).1,
    fun port hmem => of_decide_eq_true (Bool.and_eq_true_iff.1 (all_eq_true.1 hpor port hmem)).1⟩

/- What the proxy admits: the port, a host in scope or approved, and one that is not denied or approved. -/
theorem policyAllows_iff (hpro : policy.profile≠.developer) {name : String}
    (hnam : normalizeEgressHostname node name=host) :
    (policyAllows node name port policy now).isAllowed=true ↔
      policy.profile≠.offline ∧ portPermitted policy port ∧
        ((approves node false host policy now=true ∨ approves node true host policy now=true) ∨
          (inScope node policy host ∨ covers node true host policy.allowDomains=true) ∧
            covers node false host policy.denyDomains=false ∧ covers node true host policy.denyDomains=false) := by
  have htem : (temporaryUntil node host policy now).isSome =
      (approves node false host policy now || approves node true host policy now) := isSome_temporaryUntil
  rw [← Bool.or_eq_true,← htem]
  unfold policyAllows
  simp only [hnam,any_domainMatches,portPermitted,inScope]
  cases hkin : policy.profile with
  | developer => exact absurd hkin hpro
  | offline => simp [PolicyResult.isAllowed]
  | webOnly =>
    by_cases hpor : port=80 ∨ port=443
    · have hope : ¬ (port≠80 ∧ port≠443) := by tauto
      simp [hope,hpor,beq_false_of_ne,or_comm]
    · have hshu : port≠80 ∧ port≠443 := by tauto
      simp [hshu,PolicyResult.isAllowed]
  | custom =>
    by_cases hpor : port=80 ∨ port=443 ∨ port ∈ policy.allowTcpPorts
    · have hope : ¬ (port≠80 ∧ port≠443 ∧ port ∉ policy.allowTcpPorts) := by tauto
      simp only [hope,hpor,beq_self_eq_true,Bool.true_and,isAllowed_temporarily,if_false,ne_eq,reduceCtorEq,
        not_false_eq_true,true_and,false_and,false_or]
      generalize covers node false host policy.denyDomains=dL
      generalize covers node true host policy.denyDomains=dU
      generalize covers node false host policy.allowDomains=aL
      generalize covers node true host policy.allowDomains=aU
      generalize (temporaryUntil node host policy now).isSome=t
      have hadd : (z.isIP host≠0 ∧ addressAllowedByCidrs node host policy.allowCidrs=true) ↔
          (z.isIP host != 0 && addressAllowedByCidrs node host policy.allowCidrs)=true := by simp
      rw [hadd]
      generalize (z.isIP host != 0 && addressAllowedByCidrs node host policy.allowCidrs)=address
      revert dL dU aL aU t address
      decide
    · have hshu : port≠80 ∧ port≠443 ∧ port ∉ policy.allowTcpPorts := by tauto
      simp [hshu,PolicyResult.isAllowed]

theorem explainHost_iff (hacc : Accepted policy) (hlow : lowerCase host=host)
    (hpro : policy.profile≠.developer) :
    (explainHost node policy host port now).allowedByNamedRules=true ↔
      policy.profile≠.offline ∧ portPermitted policy port ∧
        (approves node false host policy now=true ∨
          inScope node policy host ∧ covers node false host policy.denyDomains=false) := by
  have htem : (temporaryApproval node policy host now).isSome=approves node false host policy now :=
    isSome_temporaryApproval hlow hacc.approved
  have hden : policy.denyDomains.any (patternMatches host)=covers node false host policy.denyDomains :=
    any_patternMatches hlow hacc.denied
  have hall : policy.allowDomains.any (patternMatches host)=covers node false host policy.allowDomains :=
    any_patternMatches hlow hacc.allowed
  unfold explainHost explainProfile
  simp only [hden,hall,← Option.not_isSome,htem,portPermitted,inScope]
  cases hkin : policy.profile with
  | developer => exact absurd hkin hpro
  | offline => simp
  | webOnly =>
    cases approves node false host policy now <;> cases covers node false host policy.denyDomains <;> simp
  | custom =>
    cases approves node false host policy now <;> cases covers node false host policy.denyDomains <;> simp [or_comm,or_left_comm]

/-- The explanation agrees with the proxy exactly where the patterns with capitals change nothing. -/
theorem agree_iff (hacc : Accepted policy) (hlow : lowerCase host=host)
    (hpro : policy.profile≠.developer) {name : String} (hnae : normalizeEgressHostname node name=host) :
    ((explainHost node policy host port now).allowedByNamedRules=true ↔
      (policyAllows node name port policy now).isAllowed=true) ↔ CapitalsIdle node policy host port now := by
  rw [explainHost_iff hacc hlow hpro,policyAllows_iff hpro hnae]
  by_cases hoff : policy.profile=.offline
  · exact iff_of_true (by simp [hoff]) (.offline hoff)
  by_cases hpor : portPermitted policy port
  swap
  · exact iff_of_true (by simp [hpor]) (.port hpor)
  simp only [ne_eq,hoff,not_false_eq_true,hpor,true_and]
  constructor
  · intro hsam
    by_cases happ : approves node false host policy now=true
    · exact .approved happ
    by_cases hden : covers node false host policy.denyDomains=true
    · by_cases hcapital : approves node true host policy now=true
      · simp [happ,hcapital,hden] at hsam
      · exact .denied (Bool.eq_false_iff.2 hcapital) hden
    rw [Bool.not_eq_true] at hden
    by_cases hcapital : approves node true host policy now=true
    · have hsco : inScope node policy host := by
        simpa [happ,hcapital,hden] using hsam
      exact .admitted hcapital hsco hden
    rw [Bool.not_eq_true] at hcapital
    by_cases hsco : inScope node policy host
    · refine .within hcapital hsco ?_
      simpa [happ,hcapital,hden,hsco] using hsam
    · refine .outside hcapital hsco ?_
      cases hnam : covers node true host policy.allowDomains with
      | false => exact Or.inr rfl
      | true => exact Or.inl (by simpa [happ,hcapital,hden,hsco,hnam] using hsam)
  · intro hidl
    cases hidl with
    | offline h => exact absurd h hoff
    | port h => exact absurd hpor h
    | approved h => simp [h]
    | admitted h hsco hden => simp [h,hsco,hden]
    | denied h hden => simp [h,hden]
    | within h hsco hden => simp [h,hsco,hden]
    | outside h hsco hcapital =>
      cases happ : approves node false host policy now with
      | true => simp
      | false => rcases hcapital with hcapital | hcapital <;> simp [h,hsco,hcapital]

theorem portPermitted_zero (hacc : Accepted policy) : ¬ portPermitted policy 0 := by
  rintro (h | h | ⟨-,h⟩)
  · cases h
  · cases h
  · exact absurd (hacc.ports 0 h) (by decide)

/-- Of a policy that the schema accepts, the explanation of a target reports that it is allowed exactly when
the proxy admits its host and its port, if and only if the patterns with capitals change nothing. -/
theorem explanation_agrees (given policy : NetworkPolicy) (target host : String) (port : ℕ) (now : ℤ)
    (hparsed : (networkPolicySchema z).parse given=some policy) (hprofile : policy.profile≠.developer)
    (hnames : Names node target host port) :
    (reportsAllowed node policy target now=true ↔
      (policyAllows node host port (parsePolicy policy) now).isAllowed=true) ↔
    CapitalsIdle node (parsePolicy policy) (normalizeEgressHostname node host) port now := by
  have hacc:=accepted_parse hparsed
  have hkin : (parsePolicy policy).profile≠.developer := hprofile
  by_cases hpor : 1≤port
  · obtain ⟨htar,hlow⟩ := explainTarget_named hnames hpor
    have hrep : reportsAllowed node policy target now =
        (explainHost node (parsePolicy policy) (normalizeEgressHostname node host) port now).allowedByNamedRules := by
      rw [reportsAllowed,explainNetworkPolicy,htar]
      rfl
    rw [hrep]
    exact agree_iff hacc hlow hkin rfl
  · obtain rfl : port=0 := by omega
    have hshu:=portPermitted_zero hacc
    have hrep : reportsAllowed node policy target now=false := by
      rw [reportsAllowed,explainNetworkPolicy,explainTarget_closed hnames]
      rfl
    rw [hrep,policyAllows_iff hkin rfl]
    exact iff_of_true (by simp [hshu]) (.port hshu)

end Agreement

def mixedCasePolicy : NetworkPolicy where
  profile := .custom
  allowDomains := some ["Example.com"]
  denyDomains := some []
  allowCidrs := some []
  allowTcpPorts := some []
  temporaryApprovals := some []

theorem names_example : Names tcpNetwork "example.com:443" "example.com" 443 :=
  .name "example.com" "443" 443 (by decide) (by decide) ⟨by decide,by decide,by decide⟩ (by decide) (by decide)

/-- The proxy admits a host that the explanation reports as not allowed. -/
theorem mixed_case_allow_unexplained :
    ¬ ∀ (z : Formats) (node : Network z) (given policy : NetworkPolicy) (target host : String) (port : ℕ) (now : ℤ),
      (networkPolicySchema z).parse given=some policy → policy.profile≠.developer →
      Names node target host port →
      (reportsAllowed node policy target now=true ↔
        (policyAllows node host port (parsePolicy policy) now).isAllowed=true) := by
  intro h
  have hagr:=h namesAndAddress tcpNetwork mixedCasePolicy mixedCasePolicy "example.com:443" "example.com" 443 0
    (by decide) (by decide) names_example
  exact absurd (hagr.2 (by decide +kernel)) (by decide +kernel)

def lowerCasePolicy : NetworkPolicy := { mixedCasePolicy with allowDomains := some ["*.example.com"] }

theorem explanation_agrees_lower_case :
    (reportsAllowed tcpNetwork lowerCasePolicy "www.Example.com:443" 0=true ↔
      (policyAllows tcpNetwork "www.Example.com" 443 (parsePolicy lowerCasePolicy) 0).isAllowed=true) ↔
    CapitalsIdle tcpNetwork (parsePolicy lowerCasePolicy) (normalizeEgressHostname tcpNetwork "www.Example.com") 443 0 :=
  explanation_agrees lowerCasePolicy lowerCasePolicy "www.Example.com:443" "www.Example.com" 443 0
    (by decide) (by decide)
    (.name "www.Example.com" "443" 443 (by decide) (by decide) ⟨by decide,by decide,by decide⟩ (by decide) (by decide))

end Qubicl.Cli.NetworkPolicy
