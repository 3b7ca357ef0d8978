import Qubicl.Core.Computer
import Qubicl.Foundation.RegexLanguage
import Qubicl.Gateway.Headers

/-!
# What the egress proxy admits (packages/control/src/egress.ts:202-284, network-address.ts)

A target is admitted by the profile, the ports and the domain and address rules of a policy, and by temporary approvals until
they expire.
-/

namespace Qubicl.Control.Egress
open Foundation Core List Option
open Gateway (lowerCase)

/- `new URL(text)`; `port` is `none` where it is the empty text. -/
structure Url where
  protocol : String
  hostname : String
  port : Option ℕ
  deriving DecidableEq, Repr

/- A subnet of a `BlockList`: base, size and family. -/
abbrev Subnet := String × Option ℚ × ℕ

def bracketed (address : String) : String := "[" ++ address ++ "]"

def addressUrl (address : String) : String := "http://" ++ bracketed address ++ "/"

/- `[A-Za-z0-9._-]` -/
def nameChar (c : Char) : Bool := c.isAlphanum || c == '.' || c == '-' || c == '_'

/- The digits of a port. -/
def portText (digits : String) (port : ℕ) : Prop :=
  digits ≠ "" ∧ digits.toList.all Char.isDigit=true ∧ Number.natOfDigits digits.toList=port

/-- What Node.js does. The host of a URL is an IPv6 address in brackets, in its one normal form, or has no
bracket and no colon; a name keeps its letters in a URL of no known scheme, and an IPv6 address takes its
normal form in every URL. -/
structure Network (z : Formats) where
  url : String → Option Url
  check : List Subnet → String → ℕ → Bool
  dateParse : String → Option ℤ
  isIP6 : ∀ text, z.isIP text=6 →
    ':' ∈ text.toList ∧ '[' ∉ text.toList ∧ '/' ∉ text.toList ∧
      ('%' ∉ text.toList → text.toList.getLast? ≠ some '.') ∧ z.isIP (lowerCase text)=6
  hostname : ∀ text u, url text=some u →
    (∃ address, u.hostname=bracketed address ∧ z.isIP address=6 ∧ lowerCase address=address ∧
      '%' ∉ address.toList ∧ (url (addressUrl address)).map (·.hostname)=some (bracketed address)) ∨
    ∀ c ∈ u.hostname.toList, c ≠ '[' ∧ c ≠ ']' ∧ c ≠ ':'
  port : ∀ text u port, url text=some u → u.port=some port → port≤65535
  name : ∀ host digits port, host ≠ "" → host.toList.all nameChar=true → portText digits port → port≤65535 →
    url ("tcp://" ++ (host ++ ":" ++ digits))=some ⟨"tcp:",host,some port⟩
  address : ∀ address digits port, z.isIP address=6 → '%' ∉ address.toList → portText digits port →
    port≤65535 → ∃ normal, (url (addressUrl (lowerCase address))).map (·.hostname)=some (bracketed normal) ∧
      url ("tcp://" ++ (bracketed address ++ ":" ++ digits))=some ⟨"tcp:",bracketed normal,some port⟩

structure EgressNetworkPolicy where
  profile : NetworkProfile
  allowDomains : List String
  denyDomains : List String
  allowCidrs : List String
  allowTcpPorts : List ℕ
  temporaryApprovals : List TemporaryApproval
  deriving DecidableEq, Repr

/- `parsePolicy` of a policy that is set. -/
def parsePolicy (policy : NetworkPolicy) : EgressNetworkPolicy where
  profile := policy.profile
  allowDomains := policy.allowDomains.getD []
  denyDomains := policy.denyDomains.getD []
  allowCidrs := policy.allowCidrs.getD []
  allowTcpPorts := policy.allowTcpPorts.getD []
  temporaryApprovals := policy.temporaryApprovals.getD []

structure QubiclError where
  code : String
  message : String
  status : ℕ
  deriving DecidableEq, Repr

def denied (message : String) : QubiclError := ⟨"network_policy_denied",message,403⟩

def withoutDot (text : String) : String :=
  if text.toList.getLast? = some '.' then String.ofList text.toList.dropLast else text

def withoutBrackets (text : String) : String :=
  let opened:=if text.toList.head? = some '[' then text.toList.tail else text.toList
  String.ofList (if opened.getLast? = some ']' then opened.dropLast else opened)

/- `slice(1, -1)` -/
def inner (text : String) : String := String.ofList text.toList.tail.dropLast

/- `startsWith('*.')` and `slice(n)` -/
def wildcard (pattern : String) : Bool := "*.".toList.isPrefixOf pattern.toList

def sliceFrom (n : ℕ) (text : String) : String := String.ofList (text.toList.drop n)

def endsWith (text ending : String) : Bool := ending.toList.isSuffixOf text.toList

/- `pattern.startsWith('*.') ? host.endsWith(pattern.slice(1)) && host !== pattern.slice(2) : host === pattern` -/
def patternMatches (host pattern : String) : Bool :=
  if wildcard pattern then endsWith host (sliceFrom 1 pattern) && host != sliceFrom 2 pattern else host == pattern

variable {address host normal pattern text : String} {c d : Char}

section Hosts
variable {z : Formats} (node : Network z)

/- `bare`: an IPv6 address without its brackets. -/
def bareHost (z : Formats) (normalized : String) : String :=
  if normalized.toList.head? = some '[' ∧ normalized.toList.getLast? = some ']' ∧ z.isIP (inner normalized)=6 then
    inner normalized
  else normalized

/- The form that a URL gives an IPv6 address; it throws on none. -/
def addressForm (bare : String) : String :=
  if z.isIP bare=6 ∧ '%' ∉ bare.toList then
    ((node.url (addressUrl bare)).map fun url => inner url.hostname).getD bare
  else bare

def normalizeEgressHostname (host : String) : String := addressForm node (bareHost z (withoutDot (lowerCase host)))

def domainMatches (host pattern : String) : Bool := patternMatches host (normalizeEgressHostname node pattern)

/- `addressAllowedByCidrs`, which the CLI has a copy of. -/
def addressAllowedByCidrs (address : String) (cidrs : List String) : Bool :=
  let family:=z.isIP address
  if family=0 then false
  else node.check (cidrs.filterMap fun cidr =>
    let (base,size) := splitLastSlash cidr
    if z.isIP (String.ofList base)=family then some (String.ofList base,Number.ofText size,family) else none)
    address family

inductive PolicyResult
  | allowed (expiresAt : Option ℤ)
  | refused (reason : String)
  deriving DecidableEq, Repr

def PolicyResult.isAllowed : PolicyResult → Bool
  | .allowed _ => true
  | .refused _ => false

def temporaryUntil (host : String) (policy : EgressNetworkPolicy) (now : ℤ) : Option ℤ :=
  (((policy.temporaryApprovals.filter fun entry => domainMatches node host entry.domain).filterMap
    fun entry => node.dateParse entry.expiresAt).filter fun expiresAt => now<expiresAt).insertionSort (· ≥ ·) |>.head?

def temporarily (needsTemporary : Bool) (temporary : Option ℤ) (reason : String) : PolicyResult :=
  match needsTemporary, temporary with
  | false, _ => .allowed none
  | true, some expiresAt => .allowed (some expiresAt)
  | true, none => .refused reason

@[simp] theorem isAllowed_temporarily (needsTemporary : Bool) (temporary : Option ℤ) (reason : String) :
    (temporarily needsTemporary temporary reason).isAllowed=(!needsTemporary || temporary.isSome) := by
  cases needsTemporary <;> cases temporary <;> rfl

def policyAllows (host : String) (port : ℕ) (policy : EgressNetworkPolicy) (now : ℤ) : PolicyResult :=
  let normalized:=normalizeEgressHostname node host
  if policy.profile=.offline then .refused "Outbound access is disabled by the offline network profile."
  else if policy.profile=.webOnly ∧ port≠80 ∧ port≠443 then
    .refused ("Port " ++ toString port ++ " is not allowed by web-only.")
  else if policy.profile=.custom ∧ port≠80 ∧ port≠443 ∧ port ∉ policy.allowTcpPorts then
    .refused ("Port " ++ toString port ++ " is not in the custom TCP-port allowlist.")
  else
    let temporary:=temporaryUntil node normalized policy now
    let explicitAddress:=z.isIP normalized != 0 && addressAllowedByCidrs node normalized policy.allowCidrs
    let explicitlyDenied:=policy.denyDomains.any (domainMatches node normalized)
    let outsideCustomScope:=policy.profile == .custom && !explicitAddress &&
      !policy.allowDomains.any (domainMatches node normalized)
    let needsTemporary:=explicitlyDenied || outsideCustomScope
    temporarily needsTemporary temporary (if outsideCustomScope then
        normalized ++ " is not in the custom domain or CIDR allowlists."
      else normalized ++ " is denied by network policy.")

theorem mem_withoutDot (h : c ∈ (withoutDot text).toList) : c ∈ text.toList := by
  unfold withoutDot at h
  split at h
  · rw [String.toList_ofList] at h
    exact mem_of_mem_dropLast h
  · exact h

theorem withoutDot_eq_self (h : text.toList.getLast? ≠ some '.') : withoutDot text=text := if_neg h

theorem withoutBrackets_bracketed (address : String) : withoutBrackets (bracketed address)=address := by
  simp [withoutBrackets,bracketed]

theorem withoutBrackets_plain (hope : '[' ∉ text.toList) (hclo : ']' ∉ text.toList) : withoutBrackets text=text := by
  have hhea : text.toList.head? ≠ some '[' := fun h => hope (mem_of_mem_head? h)
  have hlas : text.toList.getLast? ≠ some ']' := fun h => hclo (mem_of_mem_getLast? h)
  simp only [withoutBrackets,if_neg hhea,if_neg hlas,String.ofList_toList]

theorem inner_bracketed (address : String) : inner (bracketed address)=address := by
  simp [inner,bracketed]

theorem mem_lowerCase : c ∈ (lowerCase text).toList ↔ ∃ d ∈ text.toList, d.toLower=c := by
  simp [lowerCase]

/- A letter in lower case is no delimiter. -/
theorem toLower_delimiter (hd : d ∈ ['[',']',':','%','.']) (h : c.toLower=d) : c=d := by
  refine Gateway.eq_of_toLower ?_ h
  simp only [mem_cons,not_mem_nil,or_false] at hd
  rcases hd with rfl | rfl | rfl | rfl | rfl <;> decide

theorem delimiter_lowerCase (hd : d ∈ ['[',']',':','%','.']) (h : d ∉ text.toList) : d ∉ (lowerCase text).toList := by
  intro hc
  obtain ⟨c,hmem,hlow⟩ := mem_lowerCase.1 hc
  rw [toLower_delimiter hd hlow] at hmem
  exact h hmem

theorem withoutDot_lowerCase (text : String) : withoutDot (lowerCase text)=lowerCase (withoutDot text) := by
  have hlas : (lowerCase text).toList.getLast? = some '.' ↔ text.toList.getLast? = some '.' := by
    rw [lowerCase,String.toList_map,getLast?_map,map_eq_some_iff]
    constructor
    · rintro ⟨c,hc,hlow⟩
      rw [hc,toLower_delimiter (by decide) hlow]
    · exact fun h => ⟨'.',h,by decide⟩
  unfold withoutDot
  by_cases h : text.toList.getLast? = some '.'
  · rw [if_pos h,if_pos (hlas.2 h),← String.toList_inj]
    simp [lowerCase,map_dropLast]
  · rw [if_neg h,if_neg (hlas.not.2 h)]

theorem lowerCase_ne_empty (h : text ≠ "") : lowerCase text ≠ "" := by
  intro hemp
  rw [← String.toList_inj,lowerCase,String.toList_map,String.toList_empty,map_eq_nil_iff] at hemp
  exact h (String.toList_eq_nil_iff.1 hemp)

theorem bareHost_plain  (h : '[' ∉ text.toList) : bareHost z text=text :=
  if_neg fun hbra => h (mem_of_mem_head? hbra.1)

theorem bareHost_bracketed (hip : z.isIP address=6) : bareHost z (bracketed address)=address := by
  have hinn:=inner_bracketed address
  refine (if_pos ⟨?_,?_,?_⟩).trans hinn
  · simp [bracketed]
  · simp [bracketed,getLast?_cons]
  · rw [hinn]
    exact hip

theorem addressForm_name {name : String} (h : ':' ∉ name.toList) : addressForm node name=name :=
  if_neg fun hip => h (node.isIP6 _ hip.1).1

theorem addressForm_address (hip : z.isIP address=6) (hzon : '%' ∉ address.toList)
    (hurl : (node.url (addressUrl address)).map (·.hostname)=some (bracketed normal)) :
    addressForm node address=normal := by
  obtain ⟨url,hfou,hhos⟩ := map_eq_some_iff.1 hurl
  rw [addressForm,if_pos ⟨hip,hzon⟩,hfou,map_some,getD_some,hhos,inner_bracketed]

theorem normalizeEgressHostname_name  (hope : '[' ∉ host.toList) (hcol : ':' ∉ host.toList) :
    normalizeEgressHostname node host=withoutDot (lowerCase host) := by
  rw [normalizeEgressHostname,bareHost_plain,addressForm_name]
  · exact fun hc => delimiter_lowerCase (by decide) hcol (mem_withoutDot hc)
  · exact fun hc => delimiter_lowerCase (by decide) hope (mem_withoutDot hc)

theorem lowerCase_bracketed (h : lowerCase address=address) : lowerCase (bracketed address)=bracketed address := by
  refine Gateway.lowerCase_eq_self.2 fun c hc => ?_
  simp only [bracketed,String.toList_append,mem_append] at hc
  rcases hc with (hope | hinner) | hclose
  · rw [mem_singleton.1 hope]
    decide
  · exact Gateway.lowerCase_eq_self.1 h c hinner
  · rw [mem_singleton.1 hclose]
    decide

theorem normalizeEgressHostname_bracketed (hip : z.isIP address=6) (hlow : lowerCase address=address)
    (hzon : '%' ∉ address.toList) (hurl : (node.url (addressUrl address)).map (·.hostname)=some (bracketed address)) :
    normalizeEgressHostname node (bracketed address)=address := by
  have hdot : (bracketed address).toList.getLast? ≠ some '.' := by simp [bracketed,getLast?_cons]
  rw [normalizeEgressHostname,lowerCase_bracketed hlow,withoutDot_eq_self hdot,bareHost_bracketed hip]
  exact addressForm_address node hip hzon hurl

theorem normalizeEgressHostname_address (hip : z.isIP address=6) (hzon : '%' ∉ address.toList)
    (hurl : (node.url (addressUrl (lowerCase address))).map (·.hostname)=some (bracketed normal)) :
    normalizeEgressHostname node address=normal := by
  obtain ⟨-,-,-,-,hlow⟩ := node.isIP6 _ hip
  obtain ⟨-,hope,-,hdot,-⟩ := node.isIP6 _ hlow
  have hlowerZone:=delimiter_lowerCase (by decide) hzon
  rw [normalizeEgressHostname,withoutDot_eq_self (hdot hlowerZone),bareHost_plain hope]
  exact addressForm_address node hlow hlowerZone hurl

theorem letter_of_mem {cs : List Char} (h : cs ∈ (Regex.choice [lower,upper,digit]).language) :
    ∃ c, c ≠ '.' ∧ cs=[c] := by
  simp only [Regex.choice,foldr_cons,foldr_nil,Regex.mem_alt,lower,upper,digit,Regex.range,
    Regex.mem_char,Regex.mem_never,or_false] at h
  obtain ⟨c,hc,rfl⟩ | ⟨c,hc,rfl⟩ | ⟨c,hc,rfl⟩ := h
  all_goals
    refine ⟨c,?_,rfl⟩
    rintro rfl
    revert hc
    decide

theorem domainPattern_chars (h : domainPattern pattern=true) :
    '[' ∉ pattern.toList ∧ ':' ∉ pattern.toList ∧ pattern.toList.getLast? ≠ some '.' := by
  have hmem:=(Regex.test_iff _ _).1 (Bool.and_eq_true_iff.1 h).2
  have hall:=Regex.allows_of_mem hmem
  refine ⟨fun hc => absurd (hall _ hc) (by decide),fun hc => absurd (hall _ hc) (by decide),?_⟩
  simp only [Regex.sequence,foldr_cons,foldr_nil,Regex.mem_seq] at hmem
  obtain ⟨star,-,middle,⟨first,hfir,rest,⟨last,hlas,done,hdon,rfl⟩,rfl⟩,htex⟩ := hmem
  rw [Regex.mem_done.1 hdon,append_nil] at htex
  rw [← htex]
  obtain ⟨c,hc,rfl⟩ := letter_of_mem hfir
  rcases Regex.mem_alt.1 hlas with hnon | hsome
  · rw [Regex.mem_done.1 hnon]
    simpa using hc
  · obtain ⟨between,-,final,hfin,rfl⟩ := Regex.mem_seq.1 hsome
    obtain ⟨d,hd,rfl⟩ := letter_of_mem hfin
    rw [← append_assoc,← append_assoc,getLast?_concat]
    simpa using hd

theorem normalizeEgressHostname_pattern (h : domainPattern pattern=true) :
    normalizeEgressHostname node pattern=lowerCase pattern := by
  obtain ⟨hope,hcol,hdot⟩ := domainPattern_chars h
  rw [normalizeEgressHostname_name node hope hcol]
  refine withoutDot_eq_self fun hlas => hdot ?_
  rw [lowerCase,String.toList_map,getLast?_map,map_eq_some_iff] at hlas
  obtain ⟨c,hc,hlow⟩ := hlas
  rw [hc,toLower_delimiter (by decide) hlow]

/- A host in lower case matches a pattern as it is written only if the pattern has no capitals. -/
theorem lower_of_patternMatches (hlow : lowerCase host=host) (h : patternMatches host pattern=true) :
    lowerCase pattern=pattern := by
  have hhos:=Gateway.lowerCase_eq_self.1 hlow
  refine Gateway.lowerCase_eq_self.2 fun c hc => ?_
  unfold patternMatches at h
  split at h
  next hwil =>
    obtain ⟨rest,hres⟩ := isPrefixOf_iff_prefix.1 hwil
    have hsuf:=isSuffixOf_iff_suffix.1 (Bool.and_eq_true_iff.1 h).1
    rw [← hres] at hc
    have hend : (sliceFrom 1 pattern).toList = '.' :: rest := by
      rw [sliceFrom,String.toList_ofList,← hres]
      rfl
    rw [hend] at hsuf
    rcases mem_cons.1 hc with rfl | hc
    · decide
    · exact hhos c (hsuf.mem hc)
  next => exact hhos c (by rwa [beq_iff_eq.1 h])

theorem patternMatches_eq (hlow : lowerCase host=host) (h : domainPattern pattern=true) :
    patternMatches host pattern=(lowerCase pattern == pattern && domainMatches node host pattern) := by
  rw [domainMatches,normalizeEgressHostname_pattern node h]
  by_cases hpla : lowerCase pattern=pattern
  · rw [hpla,beq_self_eq_true,Bool.true_and]
  · rw [beq_false_of_ne hpla,Bool.false_and,Bool.eq_false_iff]
    exact fun hmat => hpla (lower_of_patternMatches hlow hmat)

end Hosts

def isGloballyRoutableIpv4 (a b c : ℕ) : Bool :=
  !(a == 0 || a == 10 || a == 127 || decide (224≤a) || (a == 100 && decide (64≤b) && decide (b≤127)) ||
    (a == 169 && b == 254) || (a == 172 && decide (16≤b) && decide (b≤31)) || (a == 192 && b == 0) ||
    (a == 192 && b == 168) || (a == 198 && (b == 18 || b == 19)) || (a == 198 && b == 51 && c == 100) ||
    (a == 203 && b == 0 && c == 113))

def octets (text : List Char) : Option (List ℕ) := do
  let values ← (text.splitOn '.').mapM Number.ofText
  let bytes ← values.mapM fun value => if value.den=1 ∧ 0≤value ∧ value≤255 then some value.num.toNat else none
  if bytes.length=4 then some bytes else none

def routableOctets : List ℕ → Bool
  | [a,b,c,_] => isGloballyRoutableIpv4 a b c
  | _ => false

def hexWord (text : List Char) : Option ℕ :=
  if 1≤text.length ∧ text.length≤4 ∧ text.all fun c => c.isDigit || ('a' ≤ c && c ≤ 'f') then
    (Number.ofText ('0' :: 'x' :: text)).map fun value => value.num.toNat
  else none

def splitElision : List Char → Option (List Char × List Char)
  | ':' :: ':' :: rest => some ([],rest)
  | c::rest => (splitElision rest).map fun parts => (c::parts.1,parts.2)
  | [] => none

def colonParts (text : List Char) : List (List Char) := if text.isEmpty then [] else text.splitOn ':'

/- `/^(.*:)(\d+\.\d+\.\d+\.\d+)$/u`: an IPv4 part at the end is written as two words. -/
def withoutQuad (input : List Char) : Option (List Char) :=
  let quad:=(input.reverse.takeWhile (· ≠ ':')).reverse
  let before:=input.take (input.length - quad.length)
  let parts:=quad.splitOn '.'
  if before≠[] ∧ parts.length=4 ∧ ∀ part ∈ parts, part≠[] ∧ part.all Char.isDigit then
    match octets quad with
    | some [a,b,c,d] => some (before++Nat.toDigits 16 (a*256+b)++[':']++Nat.toDigits 16 (c*256+d))
    | _ => none
  else some input

/- `parseIpv6`, as eight words. -/
def parseIpv6 (address : String) : Option (List ℕ) := do
  let input ← withoutQuad ((lowerCase address).toList.takeWhile (· ≠ '%'))
  match splitElision input with
  | none =>
    let words ← (colonParts input).mapM hexWord
    if words.length=8 then some words else none
  | some (leftText,rightText) =>
    if (splitElision rightText).isSome then none
    else
      let left ← (colonParts leftText).mapM hexWord
      let right ← (colonParts rightText).mapM hexWord
      if 8≤left.length+right.length then none
      else some (left++List.replicate (8 - left.length - right.length) 0++right)

/- Global unicast, less Teredo, benchmarking, ORCHID, documentation and 6to4. -/
def isGloballyRoutableIpv6 : List ℕ → Bool
  | [a,b,c,d,e,f,g,h] =>
    if [a,b,c,d,e]=[0,0,0,0,0] ∧ f=0xffff then
      isGloballyRoutableIpv4 (g / 256) (g % 256) (h / 256)
    else a / 0x2000 == 1 && !(a == 0x2001 && (b == 0 || (b == 2 && c == 0) || b / 16 == 1 || b == 0xdb8)) && a != 0x2002
  | _ => false

def isGloballyRoutableIp (z : Formats) (address : String) : Bool :=
  if z.isIP address=4 then ((octets address.toList).map routableOctets).getD false
  else if z.isIP address=6 then ((parseIpv6 address).map isGloballyRoutableIpv6).getD false
  else false

structure Authorization where
  address : String
  expiresAt : Option ℤ
  deriving DecidableEq, Repr

section Targets
variable {z : Formats} (node : Network z)

def addressApproved (policy : EgressNetworkPolicy) (address : String) : Bool :=
  policy.profile == .developer || isGloballyRoutableIp z address || addressAllowedByCidrs node address policy.allowCidrs

def authorizeTarget (lookup : String → Except QubiclError (List String)) (host : String) (port : ℕ)
    (policy : EgressNetworkPolicy) (now : ℤ) : Except QubiclError Authorization :=
  let normalized:=normalizeEgressHostname node host
  match policyAllows node normalized port policy now with
  | .refused reason => .error (denied reason)
  | .allowed expiresAt => do
    let addresses ← if z.isIP normalized≠0 then .ok [normalized] else lookup normalized
    if addresses=[] then .error (denied ("No address resolved for " ++ normalized ++ "."))
    else match addresses.find? (addressApproved node policy) with
      | none => .error (denied
          (normalized ++ " resolves only to private or special-use addresses outside the approved CIDRs."))
      | some address => .ok ⟨address,expiresAt⟩

/- The text before the last `:` and the text after it. -/
def splitLastColon (text : List Char) : List Char × List Char :=
  (if ':' ∈ text then ((text.reverse.dropWhile (· ≠ ':')).drop 1).reverse else text.dropLast,
    (text.reverse.takeWhile (· ≠ ':')).reverse)

def connectTarget (value : String) : Except QubiclError (String × ℕ) :=
  let (before,after) := splitLastColon value.toList
  let host:=withoutBrackets (String.ofList before)
  match Number.ofText after with
  | some port =>
    if host ≠ "" ∧ port.den=1 ∧ 1≤port ∧ port≤65535 then .ok (host,port.num.toNat)
    else .error (denied "Invalid CONNECT target.")
  | none => .error (denied "Invalid CONNECT target.")

end Targets

theorem datetime_blank : (Core.utf16Length "" == 24)=false := by decide

def namesAndAddress : Formats where
  uuid _ := false
  datetime value := Core.utf16Length value == 24
  httpsUrl _ := false
  isIP value := if value = "8.8.8.8" then 4 else 0
  exactHttpsOrigin _ := false
  sha256Text value := value
  datetime_empty := datetime_blank

def portDigits (digits : List Char) : Bool :=
  !digits.isEmpty && digits.all Char.isDigit && decide (Number.natOfDigits digits≤65535)

/- The URLs `tcp://host:port` with the host a name. -/
def tcpUrl (text : String) : Option Url :=
  let (host,digits) := splitLastColon (text.toList.drop 6)
  if "tcp://".toList.isPrefixOf text.toList && host.all nameChar && portDigits digits then
    some ⟨"tcp:",String.ofList host,some (Number.natOfDigits digits)⟩
  else none

theorem splitLastColon_append {host digits : List Char} (h : digits.all Char.isDigit=true) :
    splitLastColon (host ++ ':' :: digits)=(host,digits) := by
  have hdig : ∀ c ∈ digits.reverse, decide (c ≠ ':')=true := by
    intro c hc
    have := all_eq_true.1 h c (mem_reverse.1 hc)
    refine decide_eq_true ?_
    rintro rfl
    exact absurd this (by decide)
  have hrev : (host ++ ':' :: digits).reverse=digits.reverse ++ ':' :: host.reverse := by simp
  have hmem : ':' ∈ host ++ ':' :: digits := by simp
  rw [splitLastColon,if_pos hmem,hrev,takeWhile_append_of_pos hdig,dropWhile_append_of_pos hdig]
  simp

theorem tcpUrl_some {u : Url} (h : tcpUrl text=some u) :
    (∀ c ∈ u.hostname.toList, nameChar c=true) ∧ ∃ port, u.port=some port ∧ port≤65535 := by
  unfold tcpUrl at h
  obtain ⟨hval,hurl⟩ := ite_none_right_eq_some.1 h
  obtain ⟨hfro,hpor⟩ := Bool.and_eq_true_iff.1 hval
  have hcha:=(Bool.and_eq_true_iff.1 hfro).2
  have hbou:=(Bool.and_eq_true_iff.1 hpor).2
  rw [← Option.some.inj hurl]
  refine ⟨?_,_,rfl,of_decide_eq_true hbou⟩
  rw [String.toList_ofList]
  exact all_eq_true.1 hcha

theorem notIP6 (text : String) : namesAndAddress.isIP text≠6 := by
  simp only [namesAndAddress]
  split_ifs <;> decide

def datedNetwork (dates : String → Option ℤ) : Network namesAndAddress where
  url := tcpUrl
  check _ _ _ := false
  dateParse := dates
  isIP6 text h := absurd h (notIP6 text)
  hostname text u h := by
    right
    intro c hc
    have hname:=(tcpUrl_some h).1 c hc
    refine ⟨?_,?_,?_⟩ <;>
    · rintro rfl
      exact absurd hname (by decide)
  port text u port h hport := by
    obtain ⟨found,hfound,hbound⟩ := (tcpUrl_some h).2
    rw [hport] at hfound
    rw [Option.some.inj hfound]
    exact hbound
  name host digits port hne hchars hdigits hbound := by
    obtain ⟨hsome,hdigit,hvalue⟩ := hdigits
    have hrest : ("tcp://" ++ (host ++ ":" ++ digits)).toList.drop 6=host.toList ++ ':' :: digits.toList := by simp
    have hscheme : "tcp://".toList.isPrefixOf ("tcp://" ++ (host ++ ":" ++ digits)).toList=true := by
      rw [List.isPrefixOf_iff_prefix,String.toList_append]
      exact prefix_append _ _
    have hport : portDigits digits.toList=true := by
      simp only [portDigits,hdigit,hvalue,hbound,decide_true,Bool.and_true,Bool.not_eq_true']
      simpa [List.isEmpty_iff] using hsome
    rw [tcpUrl,hrest,splitLastColon_append hdigit,hscheme]
    dsimp only
    rw [hchars,hport,hvalue,String.ofList_toList]
    rfl
  address address digits port h := absurd h (notIP6 address)

def tcpNetwork : Network namesAndAddress := datedNetwork fun _ => none

end Qubicl.Control.Egress
