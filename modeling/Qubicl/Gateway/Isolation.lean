import Qubicl.Core.LegacyJournal
import Qubicl.Foundation.RegexLanguage
import Qubicl.Foundation.Text
import Qubicl.Gateway.Origins
import Qubicl.Gateway.Unforged

/-!
# Preview origins are isolated

On the external surface every request that reaches a computer has the host of its route.
-/

namespace Qubicl.Gateway
open Foundation Core Viewing List Option

variable {z : Formats}

def previewTarget (target : String) : Bool := begins target "/_qubicl/previews/"

/-- The computer that is reached, and whether on its previews. -/
def Outcome.reached : Outcome → Option (String × Bool)
  | refused _ => none
  | proxied id view target => some (id,!view && previewTarget target)
  | answered id preview => some (id,preview)

section Spec
variable (node : Node z) (table : RouteTable) (surface : RequestSurface z) (request : Arrival)

/-- The peer, as an IPv4 address where it is a mapped one, lies in a network of the list. -/
def PeerAllowed (networks : List String) : Prop :=
  ∃ text peer, request.remoteAddress=some text ∧ node.address (withoutZone text)=some peer ∧
    ∃ subnet ∈ subnets node networks, subnet.contains peer.canonical=true

/-- One `Host`, the authority of a hostname, and the server name of the connection is that hostname. -/
structure Addressed (runtime : GatewayExposureRuntime) (expected : String) : Prop where
  single : rawHeaderCount request "host" = 1
  host : ∃ authority received, node.host (exposureOrigin z expected runtime.port)=some authority ∧
    request.header "host" = some received ∧ lowerCase received=lowerCase authority
  encrypted : request.encrypted=true
  servername : request.servername.map lowerCase=some expected ∨ z.isIP expected≠0 ∧ request.servername=none

/-- The hostname of a route: of the previews of a computer, of a publication of it, or of the gateway. -/
def Required (runtime : GatewayExposureRuntime) (id : String) (preview : Bool) (expected : String) : Prop :=
  if preview then
    (∃ domain, runtime.previewDomain=some domain ∧ expected=gatewayPreviewHostname id domain) ∨
      ∃ publication, publicationPreviewRequest node request surface=some (publication,id) ∧
        requestHost node request=some expected
  else expected=runtime.hostname

structure Isolated (outcome : Outcome) : Prop where
  preview : ∀ id, outcome.reached=some (id,true) → isPreviewRequestHost node request id surface=true ∨
    ∃ publication, publicationPreviewRequest node request surface=some (publication,id)
  publication : ∀ id target publication computer, outcome=.proxied id false target → previewTarget target=true →
    publicationPreviewRequest node request surface=some (publication,computer) →
    computer=id ∧ ∃ rest, target = "/_qubicl/previews/" ++ publication++rest ∧ begins rest "/" = true
  other : ∀ id, outcome.reached=some (id,false) → publicationPreviewRequest node request surface=none ∧
    ∀ route ∈ table.routes, isPreviewRequestHost node request route.id surface=false
  admission : ∀ id preview runtime valid, outcome.reached=some (id,preview) →
    surface=.external runtime valid → PeerAllowed node request runtime.allowedNetworks ∧
      ∃ expected, Required node surface request runtime id preview expected ∧ Addressed node request runtime expected

def plainRoute (pathname : String) : Option String :=
  match computerRoute pathname with
  | some (id,suffix) => if begins suffix "/previews/" then none else some id
  | none => none

def viewerRoute (pathname : String) : Option String :=
  match computerPath pathname with
  | some (id,rest) => if rest = "/view/websockify" then some id else none
  | none => none

/-- On the local surface the path names a computer outside its previews, and the host is that of the previews
of another. -/
def Misrouted (plain : String → Option String) : Prop :=
  surface.isExternal=false ∧ ∃ pathname search id, node.target request.url=some (pathname,search) ∧
    plain pathname=some id ∧ (table.get id).isSome=true ∧
    ∃ route ∈ table.routes, route.id≠id ∧ isPreviewRequestHost node request route.id surface=true

end Spec

theorem PeerAddress.place_canonical (peer : PeerAddress) : peer.canonical.place=peer.place := by
  cases peer with
  | v4 value => rfl
  | v6 value =>
    unfold canonical
    dsimp only
    split
    next hmap =>
      show mappedValue (BitVec.ofNat 32 value.toNat)=value.toNat
      unfold mappedValue
      rw [BitVec.toNat_ofNat]
      omega
    next => rfl

theorem Subnet.contains_congr (subnet : Subnet) {peer other : PeerAddress} (h : peer.place=other.place) :
    subnet.contains peer=subnet.contains other := by
  unfold Subnet.contains
  rw [h]

variable {text start search suffix id name domain other expected rest received : String} {outcome : Outcome}
  {identity : String × String} {plain : String → Option String}

section Peers
variable {node : Node z}

theorem normalizedPeerAddress_place {peer : PeerAddress} (h : normalizedPeerAddress node text=some peer) :
    ∃ raw, node.address (withoutZone text)=some raw ∧ raw.place=peer.place := by
  unfold normalizedPeerAddress at h
  split at h
  next => cases h
  next =>
    split at h
    next value hqua =>
      cases h
      obtain ⟨quadText,hmap,hadd⟩ := bind_eq_some_iff.1 hqua
      unfold mappedQuad at hmap
      dsimp only at hmap
      split at hmap
      next hche =>
        rw [← Option.some.inj hmap] at hadd
        simp only [Bool.and_eq_true,decide_eq_true_eq] at hche
        have hpla:=node.mapped _ _ hadd _ hche.1
        rw [String.toList_ofList,take_append_drop,String.ofList_toList] at hpla
        obtain ⟨raw,hraw,heq⟩ := map_eq_some_iff.1 hpla
        exact ⟨raw,hraw,heq⟩
      next => cases hmap
    next => exact ⟨peer,h,rfl⟩

theorem peerAllowed_of_networksAllow {request : Arrival} {networks : List String}
    (h : networksAllow node networks request.remoteAddress=true) : PeerAllowed node request networks := by
  unfold networksAllow at h
  split at h
  next => cases h
  next peer hpee =>
    obtain ⟨text,htex,hnor⟩ := bind_eq_some_iff.1 hpee
    obtain ⟨raw,hraw,hpla⟩ := normalizedPeerAddress_place hnor
    obtain ⟨subnet,hmem,hcon⟩ := any_eq_true.1 h
    refine ⟨text,raw,htex,hraw,subnet,hmem,?_⟩
    rw [subnet.contains_congr (raw.place_canonical.trans hpla)]
    exact hcon

end Peers

section Courses
variable (node : Node z) (table : RouteTable) (checks : Checks) (surface : RequestSurface z) (request : Arrival)

structure Admitted (pathname : String) : Prop where
  rooted : begins pathname "/" = true
  network : networkAllowed node surface request=true
  authority : authorityValid node surface request pathname=true

/-- Why a computer is reached, or that none is. -/
inductive Course (plain : String → Option String) : Outcome → Prop
  | refused (status : ℕ) : Course plain (.refused status)
  | publication {pathname publication computer : String} {route : ProxyRoute} {outcome : Outcome}
      (admitted : Admitted node surface request pathname)
      (host : publicationPreviewRequest node request surface=some (publication,computer))
      (found : table.get computer=some route)
      (result : outcome=.answered route.id true ∨
        ∃ search, outcome=.proxied route.id false ("/_qubicl/previews/" ++ publication++pathname++search)) :
      Course plain outcome
  | preview {pathname id rest : String} {route : ProxyRoute} {outcome : Outcome}
      (admitted : Admitted node surface request pathname)
      (unpublished : publicationPreviewRequest node request surface=none)
      (path : computerPath pathname=some (id,rest)) (previews : begins rest "/previews/" = true)
      (found : table.get id=some route) (host : isPreviewRequestHost node request id surface=true)
      (result : outcome=.answered route.id true ∨
        ∃ search, outcome=.proxied route.id false ("/_qubicl" ++ rest++search)) :
      Course plain outcome
  | other {pathname search id : String} {route : ProxyRoute} {outcome : Outcome}
      (admitted : Admitted node surface request pathname) (target : node.target request.url=some (pathname,search))
      (unpublished : publicationPreviewRequest node request surface=none)
      (path : plain pathname=some id) (found : table.get id=some route)
      (host : isPreviewRequestHost node request id surface=false) (result : outcome.reached=some (route.id,false)) :
      Course plain outcome

end Courses

theorem begins_append (start text : String) : begins (start++text) start=true := by
  unfold begins
  rw [String.toList_append, isPrefixOf_iff_prefix]
  exact prefix_append _ _

theorem begins_iff : begins text start=true ↔ ∃ rest, text=start++rest := by
  constructor
  · intro h
    unfold begins at h
    obtain ⟨rest,hres⟩ := isPrefixOf_iff_prefix.1 h
    refine ⟨String.ofList rest,?_⟩
    rw [← String.toList_inj,String.toList_append,String.toList_ofList,hres]
  · rintro ⟨rest,rfl⟩
    exact begins_append start rest

theorem not_isPrefixOf_append {xs ys : List Char} (h : (xs.zip ys).any (fun pair => pair.1 != pair.2)=true)
    (rest : List Char) : ys.isPrefixOf (xs++rest)=false := by
  induction xs generalizing ys with
  | nil => simp at h
  | cons x xs ih =>
    cases ys with
    | nil => simp at h
    | cons y ys =>
      simp only [zip_cons_cons,any_cons,Bool.or_eq_true] at h
      rw [cons_append,isPrefixOf_cons_cons]
      rcases h with hne | htail
      · have hdif : x≠y := by simpa using hne
        rw [beq_eq_false_iff_ne.2 hdif.symm,Bool.false_and]
      · rw [ih htail,Bool.and_false]

theorem previewTarget_append (rest : String)
    (h : (start.toList.zip "/_qubicl/previews/".toList).any (fun pair => pair.1 != pair.2)=true) :
    previewTarget (start++rest)=false := by
  unfold previewTarget begins
  rw [String.toList_append]
  exact not_isPrefixOf_append h _

section Results
variable {checks : Checks} {route : ProxyRoute} {target : String}

theorem proxy_result (view preview : Bool) : proxy checks route target view preview=.answered route.id preview ∨
    proxy checks route target view preview=.proxied route.id view target := by
  unfold proxy
  split
  next => exact Or.inl rfl
  next => exact Or.inr rfl

theorem reached_proxy {view : Bool} (h : view=true ∨ previewTarget target=false) :
    (proxy checks route target view false).reached=some (route.id,false) := by
  rcases @proxy_result checks route target view false with hresult | hresult
  · rw [hresult]
    rfl
  · rw [hresult]
    unfold Outcome.reached
    rcases h with rfl | htarget
    · rfl
    · simp [htarget]

theorem reached_transition {authorized : Bool} (h : previewTarget target=false) :
    (transition checks route authorized target).reached=some (route.id,false) := by
  unfold transition
  split
  next => rfl
  next => exact reached_proxy (Or.inr h)

theorem reached_ite {c : Prop} [Decidable c] {first second : Outcome} {reached : Option (String × Bool)}
    (hfir : c → first.reached=reached) (hsec : ¬ c → second.reached=reached) :
    (if c then first else second).reached=reached := by
  split
  next h => exact hfir h
  next h => exact hsec h

theorem reached_checked {c : Prop} [Decidable c] (h : outcome.reached=some (route.id,false)) :
    (if c then Outcome.answered route.id false else outcome).reached=some (route.id,false) :=
  reached_ite (fun _ => rfl) fun _ => h

theorem reached_computerRequest (surface : RequestSurface z) (request : Arrival) :
    (computerRequest checks surface request route suffix search).reached=some (route.id,false) := by
  unfold computerRequest
  refine reached_checked (reached_checked ?_)
  refine reached_ite (fun _ => reached_checked (reached_proxy (Or.inr (by decide)))) fun _ => ?_
  refine reached_checked (reached_checked (reached_checked ?_))
  refine reached_ite (fun _ => reached_checked (reached_proxy (Or.inr (previewTarget_append _ (by decide))))) fun _ => ?_
  refine reached_ite (fun _ => reached_checked (reached_proxy (Or.inl rfl))) fun _ => ?_
  refine reached_checked ?_
  refine reached_ite (fun _ => reached_checked (reached_transition ?_)) fun _ => ?_
  · split <;> decide
  refine reached_checked ?_
  refine reached_ite (fun _ => reached_checked (reached_proxy (Or.inr (by decide)))) fun _ => ?_
  refine reached_ite (fun hman => ?_) fun _ => ?_
  · obtain ⟨rest,rfl⟩ := begins_iff.1 hman
    refine reached_checked (reached_ite (fun _ => reached_proxy (Or.inr ?_)) fun _ => rfl)
    rw [← String.append_assoc]
    exact previewTarget_append _ (by decide)
  refine reached_ite (fun _ => reached_checked (reached_transition (by decide))) fun _ => ?_
  refine reached_checked ?_
  refine reached_ite (fun hope => reached_proxy (Or.inr ?_)) fun _ => rfl
  simp only [browserOpenApiRequest,openTerminal,Bool.or_eq_true,beq_iff_eq] at hope
  rcases hope with rfl | (rfl | htools) | rfl | hterminal
  · exact previewTarget_append _ (by decide)
  · exact previewTarget_append _ (by decide)
  · obtain ⟨rest,rfl⟩ := begins_iff.1 htools
    rw [String.append_assoc]
    exact previewTarget_append _ (by decide)
  · exact previewTarget_append _ (by decide)
  · obtain ⟨rest,rfl⟩ := begins_iff.1 hterminal
    rw [String.append_assoc]
    exact previewTarget_append _ (by decide)

end Results

section Courses
variable (node : Node z) (table : RouteTable) (checks : Checks) (surface : RequestSurface z) (request : Arrival)

theorem publicationRequest_course {pathname : String} {checks : Checks} (plain : String → Option String)
    (admitted : Admitted node surface request pathname)
    (host : publicationPreviewRequest node request surface=some identity) :
    Course node table surface request plain (publicationRequest table checks request identity pathname search) := by
  unfold publicationRequest
  split
  next => exact .refused 404
  next route hfou =>
    split
    next => exact .publication admitted host hfou (Or.inl rfl)
    next => exact .publication admitted host hfou ((proxy_result false true).imp_right fun h => ⟨_,h⟩)

theorem computerPath_of_route {pathname : String} (h : computerRoute pathname=some (id,suffix)) :
    ∃ rest, computerPath pathname=some (id,rest) ∧ (rest=suffix ∨ rest = "" ∧ suffix = "/") := by
  unfold computerRoute at h
  split at h
  next foundId rest hpat =>
    split at h
    next hemp =>
      cases h
      exact ⟨rest,hpat,Or.inr ⟨hemp,rfl⟩⟩
    next =>
      split at h
      next =>
        cases h
        exact ⟨_,hpat,Or.inl rfl⟩
      next => cases h
  next => cases h

theorem handle_course : Course node table surface request plainRoute (handle node table checks surface request) := by
  unfold handle
  split
  next => exact .refused 403
  next hnet =>
  split
  next => exact .refused 429
  next =>
  split
  next => exact .refused 400
  next pathname search htar =>
  split
  next => exact .refused 421
  next haut =>
  split
  next => exact .refused 413
  next =>
  have hadm : Admitted node surface request pathname :=
    ⟨node.rooted _ _ _ htar,by simpa using hnet,by simpa using haut⟩
  split
  next identity hpub => exact publicationRequest_course node table surface request plainRoute hadm hpub
  next hunp =>
  split
  next => exact .refused 200
  next =>
  split
  next => exact .refused 404
  next id suffix hpat =>
  split
  next => exact .refused 404
  next route hfou =>
  split
  next => exact .refused 403
  next hbou =>
  have hsam : isPreviewRequestHost node request id surface=begins suffix "/previews/" := by simpa using hbou
  split
  next hpre =>
    obtain ⟨rest,hcom,hres⟩ := computerPath_of_route hpat
    have heq : rest=suffix := by
      rcases hres with heq | ⟨-,rfl⟩
      · exact heq
      · exact absurd hpre (by decide)
    subst heq
    exact .preview hadm hunp hcom hpre hfou (hsam.trans hpre)
      ((proxy_result false true).imp_right fun h => ⟨_,h⟩)
  next hpla =>
    have hrou : plainRoute pathname=some id := by
      unfold plainRoute
      rw [hpat]
      exact if_neg hpla
    have hhos : isPreviewRequestHost node request id surface=false := by
      rw [hsam]
      simpa using hpla
    exact .other hadm htar hunp hrou hfou hhos (reached_computerRequest surface _)

theorem upgrade_course : Course node table surface request viewerRoute (upgrade node table checks surface request) := by
  unfold upgrade
  dsimp only
  split
  next => exact .refused 403
  next hnet =>
  split
  next => exact .refused 429
  next =>
  split
  next => exact .refused 400
  next pathname search htar =>
  split
  next => exact .refused 421
  next haut =>
  have hadm : Admitted node surface request pathname :=
    ⟨node.rooted _ _ _ htar,by simpa using hnet,by simpa using haut⟩
  split
  next identity hpub => exact publicationRequest_course node table surface request viewerRoute hadm hpub
  next hunp =>
  split
  next => exact .refused 404
  next id rest hpat =>
  split
  next hprs =>
    split
    next => exact .refused 404
    next route hfou =>
    split
    next => exact .refused 403
    next hhos =>
    have hpre : isPreviewRequestHost node request id surface=true := by simpa using hhos
    split
    next => exact .preview hadm hunp hpat hprs hfou hpre (Or.inl rfl)
    next =>
      exact .preview hadm hunp hpat hprs hfou hpre
        ((proxy_result false true).imp_right fun h => ⟨_,h⟩)
  next =>
  split
  next hvie =>
    split
    next => exact .refused 401
    next route hfou =>
    split
    next => exact .refused 403
    next hhos =>
    have hrou : viewerRoute pathname=some id := by
      unfold viewerRoute
      rw [hpat]
      exact if_pos hvie
    refine .other hadm htar hunp hrou hfou (by simpa using hhos) ?_
    unfold viewerUpgrade
    split
    next => rfl
    next => rfl
  next => exact .refused 404

end Courses

variable {c : Char}

theorem toLower_eq_self (h : ¬ (c.val ≥ 'A'.val ∧ c.val ≤ 'Z'.val)) : c.toLower=c := dif_neg h

theorem toLower_dnsChar (h : dnsChar c=true) : c.toLower=c := by
  refine toLower_eq_self ?_
  simp only [dnsChar,Bool.or_eq_true,Bool.and_eq_true,decide_eq_true_eq,beq_iff_eq] at h
  rintro ⟨hlow,hhig⟩
  rcases h with ((⟨hlet,-⟩ | ⟨-,hdig⟩) | rfl) | rfl
  · exact absurd (UInt32.le_trans (Char.le_def.1 hlet) hhig) (by decide)
  · exact absurd (UInt32.le_trans hlow (Char.le_def.1 hdig)) (by decide)
  · exact absurd hlow (by decide)
  · exact absurd hlow (by decide)

theorem lowerCase_dns (h : ∀ c ∈ name.toList, dnsChar c=true) : lowerCase name=name :=
  lowerCase_eq_self.2 fun c hc => toLower_dnsChar (h c hc)

theorem dnsChar_of_idChar (h : idChar c=true) : dnsChar c=true := by
  simp only [idChar,Bool.or_eq_true,Bool.and_eq_true,decide_eq_true_eq,beq_iff_eq] at h
  simp only [dnsChar,Bool.or_eq_true,Bool.and_eq_true,decide_eq_true_eq,beq_iff_eq]
  rcases h with (⟨hlow,hhig⟩ | hdigit) | hdash
  · exact Or.inl (Or.inl (Or.inl ⟨hlow,Char.le_trans hhig (by decide)⟩))
  · exact Or.inl (Or.inl (Or.inr hdigit))
  · exact Or.inr hdash

theorem dnsChar_of_dnsHostname (h : dnsHostname name=true) : ∀ c ∈ name.toList, dnsChar c=true := by
  intro c hc
  have hall:=Regex.allows_of_mem ((Regex.test_iff _ _).1 h) c hc
  simp only [Regex.allows,Regex.maybe,Bool.or_eq_true,Bool.false_or] at hall
  have hlowerOrDigit : lowerOrDigit.allows c=true → dnsChar c=true := by
    intro h
    simp only [lowerOrDigit,Regex.choice,lower,digit,Regex.range,foldr_cons,foldr_nil,Regex.allows,
      Bool.or_false,Bool.or_eq_true] at h
    simp only [dnsChar,Bool.or_eq_true]
    rcases h with hlow | hdigit
    · exact Or.inl (Or.inl (Or.inl hlow))
    · exact Or.inl (Or.inl (Or.inr hdigit))
  rcases hall with hfir | hmiddle | hlast
  · exact hlowerOrDigit hfir
  · have hclass:=Regex.allows_upTo hmiddle
    simp only [Regex.choice,foldr_cons,foldr_nil,Regex.allows,Bool.or_false,Bool.or_eq_true,
      Regex.oneOf] at hclass
    rcases hclass with hclass | hclass
    · exact hlowerOrDigit hclass
    · simp only [contains_eq_mem,decide_eq_true_eq] at hclass
      simp only [dnsChar,Bool.or_eq_true,beq_iff_eq]
      have hmem : c = '.' ∨ c = '-' := by simpa using hclass
      rcases hmem with rfl | rfl
      · exact Or.inl (Or.inr rfl)
      · exact Or.inr rfl
  · exact hlowerOrDigit hlast

theorem hostname_chars (h : gatewayHostname z name=true) : z.isIP name≠0 ∨ ∀ c ∈ name.toList, dnsChar c=true := by
  simp only [gatewayHostname,Bool.and_eq_true,Bool.or_eq_true,bne_iff_ne] at h
  rcases h.2 with hip | ⟨hdns,-⟩
  · exact Or.inl hip
  · exact Or.inr (dnsChar_of_dnsHostname hdns)

theorem previewDomain_chars (h : gatewayPreviewDomain z domain=true) : ∀ c ∈ domain.toList, dnsChar c=true := by
  simp only [gatewayPreviewDomain,Bool.and_eq_true,beq_iff_eq] at h
  rcases hostname_chars h.1 with hip | hdns
  · exact absurd h.2 hip
  · exact hdns

theorem gatewayPreviewHostname_toList (id domain : String) : (gatewayPreviewHostname id domain).toList =
    "preview-".toList++id.toList ++ '.' :: domain.toList := by
  unfold gatewayPreviewHostname
  simp

theorem gatewayPreviewHostname_inj (h : gatewayPreviewHostname id domain=gatewayPreviewHostname other domain) :
    id=other := by
  rw [← String.toList_inj,gatewayPreviewHostname_toList,gatewayPreviewHostname_toList] at h
  rw [← String.toList_inj]
  exact append_cancel_left (append_cancel_right h)

theorem addressChar_head (h : c.toLower = 'p') : addressChar c=false := by
  by_contra hadd
  simp only [Bool.not_eq_false,addressChar,Bool.or_eq_true,Bool.and_eq_true,decide_eq_true_eq,beq_iff_eq,
    Char.isDigit] at hadd
  rcases hadd with (⟨-,hdig⟩ | ⟨-,hlet⟩) | rfl
  · have hsel : c.toLower=c := toLower_eq_self fun hupp => absurd (UInt32.le_trans hupp.1 hdig) (by decide)
    rw [hsel] at h
    rw [h] at hdig
    exact absurd hdig (by decide)
  · rw [h] at hlet
    exact absurd hlet (by decide)
  · exact absurd h (by decide)

theorem head_lowerCase (h : c ∈ name.toList.head?) : c.toLower ∈ (lowerCase name).toList.head? := by
  unfold lowerCase
  rw [String.toList_map]
  cases hnam : name.toList with
  | nil =>
    rw [hnam] at h
    cases h
  | cons d rest =>
    rw [hnam] at h
    cases h
    rfl

theorem head_preview (h : lowerCase name=gatewayPreviewHostname id domain) (hhea : c ∈ name.toList.head?) :
    c.toLower = 'p' := by
  have hlow:=head_lowerCase hhea
  rw [h,gatewayPreviewHostname_toList] at hlow
  have heq : some 'p' = some c.toLower := hlow
  exact (Option.some.inj heq).symm

section Hosts
variable {node : Node z} {request : Arrival} {surface : RequestSurface z} {runtime : GatewayExposureRuntime}

theorem isPreviewRequestHost_iff : isPreviewRequestHost node request id surface=true ↔
    ∃ actual domain, requestHost node request=some actual ∧ surface.previewDomain=some domain ∧
      lowerCase actual=gatewayPreviewHostname id domain := by
  unfold isPreviewRequestHost
  cases hhos : requestHost node request with
  | none => simp
  | some actual =>
    cases hdom : surface.previewDomain with
    | none => simp
    | some domain => simp

theorem isPreviewRequestHost_unique (h : isPreviewRequestHost node request id surface=true)
    (h' : isPreviewRequestHost node request other surface=true) : id=other := by
  obtain ⟨actual,domain,hact,hdom,hnam⟩ := isPreviewRequestHost_iff.1 h
  obtain ⟨actual',domain',hact',hdom',hnam'⟩ := isPreviewRequestHost_iff.1 h'
  rw [hact] at hact'
  rw [hdom] at hdom'
  cases hact'
  cases hdom'
  exact gatewayPreviewHostname_inj (hnam.symm.trans hnam')

theorem publicationLabel_preview (id : List Char) : publicationLabel ("preview-".toList++id)=none := by
  unfold publicationLabel
  dsimp only
  rw [if_neg]
  intro hche
  simp only [Bool.and_eq_true] at hche
  have hall:=all_eq_true.1 hche.1.1.1.2 'p' (by simp)
  exact absurd hall (by decide)

theorem publication_of_preview (h : isPreviewRequestHost node request id surface=true) :
    publicationPreviewRequest node request surface=none := by
  obtain ⟨actual,domain,hact,hdom,hnam⟩ := isPreviewRequestHost_iff.1 h
  unfold publicationPreviewRequest
  rw [hact,hdom]
  simp only [map_some]
  unfold publicationPreviewIdentity
  dsimp only
  split
  next =>
    rw [hnam,gatewayPreviewHostname_toList]
    have hlen : ("preview-".toList++id.toList ++ '.' :: domain.toList).length - ('.' :: domain.toList).length =
        ("preview-".toList++id.toList).length := by
      rw [length_append,Nat.add_sub_cancel_right]
    rw [hlen,take_left]
    exact publicationLabel_preview _
  next => rfl

/- A host that is the authority of a name has that hostname, where the name is no address. -/
theorem requestHost_of_addressed (h : Addressed node request runtime expected)
    (hcha : z.isIP expected≠0 ∨ ∀ c ∈ expected.toList, dnsChar c=true) :
    ∃ actual, requestHost node request=some actual ∧ (lowerCase actual=lowerCase expected ∨
      (∃ c ∈ expected.toList.head?, addressChar c=true) ∧
        ∃ c ∈ actual.toList.head?, c.isDigit=true ∨ c = '[') := by
  obtain ⟨authority,received,haut,hrec,hsam⟩ := h.host
  obtain ⟨actual,hact,hlaw⟩ := node.hostname_of_host _ _ _ _ hcha haut hsam
  refine ⟨actual,?_,hlaw⟩
  unfold requestHost
  rw [hrec]
  exact hact

theorem addressed_of_valid {pathname : String} (h : validExternalRequestAuthority node request pathname runtime=true) :
    (∀ id, previewPath pathname=some id → canonicalId id=true) ∧
      ∃ expected, expectedHostname node request pathname runtime=some expected ∧
        Addressed node request runtime expected := by
  unfold validExternalRequestAuthority at h
  split at h
  next => cases h
  next hcan =>
    refine ⟨fun id hid => by simpa [hid] using hcan,?_⟩
    split at h
    next => cases h
    next expected hexp =>
      split at h
      next authority received haut hrec =>
        simp only [Bool.and_eq_true,beq_iff_eq] at h
        obtain ⟨⟨⟨hsin,hsam⟩,henc⟩,hser⟩ := h
        refine ⟨expected,hexp,hsin,⟨authority,received,haut,hrec,hsam⟩,henc,?_⟩
        split at hser
        next hip =>
          rcases Bool.or_eq_true_iff.1 hser with hnon | hsome
          · exact Or.inr ⟨hip,by simpa using hnon⟩
          · exact Or.inl (by simpa using hsome)
        next => exact Or.inl (by simpa using hser)
      next => cases h

theorem hexOrDash (huui : uuidChar c=true) (hdns : dnsChar c=true) :
    [c] ∈ (Regex.choice [hex,Regex.oneOf "-"]).language := by
  have hsel:=toLower_dnsChar hdns
  simp only [uuidChar,Bool.or_eq_true,Bool.and_eq_true,decide_eq_true_eq,beq_iff_eq,hsel,Char.isDigit] at huui
  have hcla : (('a' ≤ c ∧ c ≤ 'f') ∨ ('0' ≤ c ∧ c ≤ '9')) ∨ c = '-' := by
    rcases huui with (⟨hlow,hhig⟩ | hletter) | hdash
    · exact Or.inl (Or.inr ⟨Char.le_def.2 hlow,Char.le_def.2 hhig⟩)
    · exact Or.inl (Or.inl hletter)
    · exact Or.inr hdash
  rcases hcla with (hletter | hdigit) | rfl
  · refine Regex.mem_alt.2 (Or.inl (Regex.mem_alt.2 (Or.inl (Regex.mem_char.2 ⟨c,?_,rfl⟩))))
    simpa using hletter
  · refine Regex.mem_alt.2 (Or.inl (Regex.mem_alt.2 (Or.inr (Regex.mem_alt.2 (Or.inl (Regex.mem_char.2 ⟨c,?_,rfl⟩))))))
    simpa using hdigit
  · exact Regex.mem_alt.2 (Or.inr (Regex.mem_alt.2 (Or.inl (Regex.mem_char.2 ⟨'-',by decide,rfl⟩))))

theorem previewLabel_of_id (hlen : id.toList.length=idLength) (h : ∀ c ∈ id.toList, uuidChar c=true ∧ dnsChar c=true) :
    previewLabel (String.ofList ("preview-".toList++id.toList))=true := by
  have htex : "preview-".toList ∈ (Regex.text "preview-").language := (Regex.test_iff _ _).1 (by decide)
  have hid:=Regex.mem_times_of_forall fun c hc => hexOrDash (h c hc).1 (h c hc).2
  rw [hlen] at hid
  unfold previewLabel
  rw [Regex.test_iff,String.toList_ofList]
  exact Regex.mem_seq.2 ⟨_,htex,_,hid,rfl⟩

theorem hostname_not_preview (node : Node z) (hval : gatewayExposureRuntimeSchema z runtime=true)
    (hdom : runtime.previewDomain=some domain) (hid : id.toList.length=idLength ∧ ∀ c ∈ id.toList, uuidChar c=true) :
    lowerCase runtime.hostname≠gatewayPreviewHostname id domain := by
  intro heq
  simp only [gatewayExposureRuntimeSchema,Bool.and_eq_true] at hval
  have hiss:=hval.2
  have hhos : gatewayHostname z runtime.hostname=true := by tauto
  rcases hostname_chars hhos with hip | hdns
  · rw [node.isIP] at hip
    split at hip
    next => exact hip rfl
    all_goals
      next hadd =>
      obtain ⟨c,hc,hcha⟩ := node.address_head _ _ hadd
      rw [addressChar_head (head_preview heq hc)] at hcha
      cases hcha
  · rw [lowerCase_dns hdns] at heq
    rw [heq,gatewayPreviewHostname_toList] at hdns
    have hlab : previewLabel (String.ofList ("preview-".toList++id.toList))=true := by
      refine previewLabel_of_id hid.1 fun c hc => ⟨hid.2 c hc,hdns c ?_⟩
      exact mem_append_left _ (mem_append_right _ hc)
    have hrou : gatewayHostnameIsPreviewRoute runtime.hostname domain=true := by
      unfold gatewayHostnameIsPreviewRoute
      dsimp only
      rw [heq,gatewayPreviewHostname_toList,Bool.and_eq_true]
      refine ⟨isSuffixOf_iff_suffix.2 (suffix_append _ _),?_⟩
      rw [length_append,Nat.add_sub_cancel_right,take_left]
      exact hlab
    unfold validateExposureRuntime at hiss
    rw [hdom] at hiss
    simp [hrou] at hiss

end Hosts

theorem get_spec {table : RouteTable} {route : ProxyRoute} (h : table.get id=some route) :
    route.id=id ∧ route ∈ table.routes := by
  unfold RouteTable.get at h
  exact ⟨by simpa using find?_some h,mem_of_find?_eq_some h⟩

theorem computerPath_idChar {pathname : String} (h : computerPath pathname=some (id,rest)) :
    ∀ c ∈ id.toList, idChar c=true := by
  unfold computerPath at h
  dsimp only at h
  split at h
  next =>
    cases h
    rw [String.toList_ofList]
    exact fun c hc => mem_takeWhile_imp hc
  next => cases h

section Isolation
variable {node : Node z} {table : RouteTable} {surface : RequestSurface z} {request : Arrival}
  {runtime : GatewayExposureRuntime} {pathname : String}

variable {valid : gatewayExposureRuntimeSchema z runtime=true}

theorem expectedHostname_published
    (h : publicationPreviewRequest node request (.external runtime valid)=some identity)
    (hexp : expectedHostname node request pathname runtime=some expected) :
    requestHost node request=some expected := by
  unfold publicationPreviewRequest at h
  split at h
  next => cases h
  next actual hact =>
    unfold expectedHostname at hexp
    rw [hact,getD_some] at hexp
    have hsom : (publicationPreviewIdentity actual runtime.previewDomain).isSome=true := by
      rw [show publicationPreviewIdentity actual runtime.previewDomain=some identity from h]
      rfl
    rwa [if_pos hsom] at hexp

theorem expectedHostname_unpublished (h : publicationPreviewRequest node request (.external runtime valid)=none)
    (hexp : expectedHostname node request pathname runtime=some expected) :
    match previewPath pathname with
    | some id => ∃ domain, runtime.previewDomain=some domain ∧ expected=gatewayPreviewHostname id domain
    | none => expected=runtime.hostname := by
  have hnon : publicationPreviewIdentity (((requestHost node request).map lowerCase).getD "") runtime.previewDomain =
      none := by
    unfold publicationPreviewRequest at h
    split at h
    next hact =>
      rw [hact,getD_none]
      unfold publicationPreviewIdentity
      split
      next => rfl
      next => exact if_neg (by simp)
    next actual hact =>
      rw [hact]
      exact h
  unfold expectedHostname at hexp
  rw [hnon,if_neg (by decide)] at hexp
  cases hpat : previewPath pathname with
  | some id =>
    rw [hpat] at hexp
    obtain ⟨domain,hdom,heq⟩ := map_eq_some_iff.1 hexp
    exact ⟨domain,hdom,heq.symm⟩
  | none =>
    rw [hpat] at hexp
    exact (Option.some.inj hexp).symm

theorem previewDomain_valid (hval : gatewayExposureRuntimeSchema z runtime=true)
    (hdom : runtime.previewDomain=some domain) : ∀ c ∈ domain.toList, dnsChar c=true := by
  simp only [gatewayExposureRuntimeSchema,Bool.and_eq_true] at hval
  have hall : runtime.previewDomain.all (gatewayPreviewDomain z)=true := by tauto
  rw [hdom] at hall
  exact previewDomain_chars hall

theorem gatewayPreviewHostname_chars (hid : ∀ c ∈ id.toList, idChar c=true)
    (hdom : ∀ c ∈ domain.toList, dnsChar c=true) :
    ∀ c ∈ (gatewayPreviewHostname id domain).toList, dnsChar c=true := by
  intro c hc
  rw [gatewayPreviewHostname_toList,mem_append,mem_append,mem_cons] at hc
  rcases hc with (hlab | hmem) | rfl | hmem
  · have hlabelChars : ∀ c ∈ "preview-".toList, dnsChar c=true := forall_chars (by decide)
    exact hlabelChars c hlab
  · exact dnsChar_of_idChar (hid c hmem)
  · decide
  · exact hdom c hmem

theorem preview_of_addressed (hid : ∀ c ∈ id.toList, idChar c=true) (hdom : runtime.previewDomain=some domain)
    (h : Addressed node request runtime (gatewayPreviewHostname id domain)) :
    isPreviewRequestHost node request id (.external runtime valid)=true := by
  have hcha:=gatewayPreviewHostname_chars hid (previewDomain_valid valid hdom)
  obtain ⟨actual,hact,hsam | ⟨⟨c,hc,hchr⟩,-⟩⟩ := requestHost_of_addressed h (Or.inr hcha)
  · exact isPreviewRequestHost_iff.2 ⟨actual,domain,hact,hdom,hsam.trans (lowerCase_dns hcha)⟩
  · have hhea : c.toLower = 'p' := head_preview (lowerCase_dns hcha) hc
    rw [addressChar_head hhea] at hchr
    cases hchr

theorem other_of_addressed
    (h : Addressed node request runtime runtime.hostname) {route : ProxyRoute} (hrou : route ∈ table.routes) :
    isPreviewRequestHost node request route.id (.external runtime valid)=false := by
  by_contra hpre
  obtain ⟨actual,domain,hact,hdom,hnam⟩ := isPreviewRequestHost_iff.1 (by simpa using hpre)
  have hcha : z.isIP runtime.hostname≠0 ∨ ∀ c ∈ runtime.hostname.toList, dnsChar c=true := by
    have hall:=valid
    simp only [gatewayExposureRuntimeSchema,Bool.and_eq_true] at hall
    exact hostname_chars (by tauto)
  obtain ⟨actual',hact',hcas⟩ := requestHost_of_addressed h hcha
  rw [hact] at hact'
  cases hact'
  rcases hcas with hsam | ⟨-,c,hc,hchr⟩
  · exact hostname_not_preview node valid hdom (table.ids route hrou) (hsam.symm.trans hnam)
  · have hhea : c.toLower = 'p' := head_preview hnam hc
    rcases hchr with hdig | rfl
    · have hadd : addressChar c=true := by
        unfold addressChar
        rw [hdig]
        rfl
      rw [addressChar_head hhea] at hadd
      cases hadd
    · exact absurd hhea (by decide)

theorem admission_of_admitted
    (h : Admitted node (.external runtime valid) request pathname) :
    PeerAllowed node request runtime.allowedNetworks ∧
      ∃ expected, expectedHostname node request pathname runtime=some expected ∧
        Addressed node request runtime expected := by
  refine ⟨peerAllowed_of_networksAllow h.network,?_⟩
  exact (addressed_of_valid h.authority).2

theorem previewPath_of_previews (h : computerPath pathname=some (id,rest)) (hres : begins rest "/previews/" = true) :
    previewPath pathname=some id := by
  unfold previewPath
  rw [h]
  dsimp only
  rw [hres,Bool.or_true,if_pos rfl]

theorem isolated_of_course (hpla : ∀ pathname id, plain pathname=some id →
      ∃ rest, computerPath pathname=some (id,rest) ∧ begins rest "/previews/" = false)
    (hcou : Course node table surface request plain outcome) (hnot : ¬ Misrouted node table surface request plain) :
    Isolated node table surface request outcome := by
  cases hcou with
  | refused status =>
    refine ⟨?_,?_,?_,?_⟩
    · intro id h
      cases h
    · intro id target publication computer h
      cases h
    · intro id h
      cases h
    · intro id preview runtime valid h
      cases h
  | @publication pathname publication computer route _ hadm hhos hfou hres =>
    obtain ⟨rfl,hmem⟩ := get_spec hfou
    have hrea : outcome.reached=some (route.id,true) := by
      rcases hres with rfl | ⟨search,rfl⟩
      · rfl
      · have htar : previewTarget ("/_qubicl/previews/" ++ publication++pathname++search)=true := by
          unfold previewTarget
          rw [String.append_assoc,String.append_assoc]
          exact begins_append _ _
        show some (route.id,!false && previewTarget _)=_
        rw [htar]
        rfl
    refine ⟨?_,?_,?_,?_⟩
    · intro id h
      rw [hrea] at h
      cases h
      exact Or.inr ⟨publication,hhos⟩
    · intro id target publication' computer' h _ hhos'
      rw [hhos] at hhos'
      cases hhos'
      rcases hres with rfl | ⟨search,rfl⟩
      · cases h
      · cases h
        refine ⟨rfl,pathname++search,String.append_assoc,?_⟩
        obtain ⟨rest,hret⟩ := begins_iff.1 hadm.rooted
        rw [hret,String.append_assoc]
        exact begins_append _ _
    · intro id h
      rw [hrea] at h
      cases h
    · intro id preview runtime valid h hsur
      rw [hrea] at h
      cases h
      subst hsur
      obtain ⟨hpee,expected,hexp,hadd⟩ := admission_of_admitted hadm
      refine ⟨hpee,expected,?_,hadd⟩
      unfold Required
      rw [if_pos rfl]
      exact Or.inr ⟨publication,hhos,expectedHostname_published hhos hexp⟩
  | @preview pathname id rest route _ hadm hunp hpat hprs hfou hhos hres =>
    obtain ⟨rfl,hmem⟩ := get_spec hfou
    have hrea : outcome.reached=some (route.id,true) := by
      rcases hres with rfl | ⟨search,rfl⟩
      · rfl
      · have htar : previewTarget ("/_qubicl" ++ rest++search)=true := by
          obtain ⟨below,rfl⟩ := begins_iff.1 hprs
          have heq : "/_qubicl" ++ ("/previews/" ++ below)++search = "/_qubicl/previews/" ++ (below++search) := by
            rw [← String.toList_inj]
            simp
          unfold previewTarget
          rw [heq]
          exact begins_append _ _
        show some (route.id,!false && previewTarget _)=_
        rw [htar]
        rfl
    refine ⟨?_,?_,?_,?_⟩
    · intro id h
      rw [hrea] at h
      cases h
      exact Or.inl hhos
    · intro id target publication computer _ _ hpub
      rw [hunp] at hpub
      cases hpub
    · intro id h
      rw [hrea] at h
      cases h
    · intro id preview runtime valid h hsur
      rw [hrea] at h
      cases h
      subst hsur
      obtain ⟨hpee,expected,hexp,hadd⟩ := admission_of_admitted hadm
      have hnam:=expectedHostname_unpublished hunp hexp
      rw [previewPath_of_previews hpat hprs] at hnam
      refine ⟨hpee,expected,?_,hadd⟩
      unfold Required
      rw [if_pos rfl]
      exact Or.inl hnam
  | @other pathname search id route _ hadm htar hunp hpat hfou hhos hres =>
    obtain ⟨rfl,hmem⟩ := get_spec hfou
    obtain ⟨rest,hcom,hret⟩ := hpla _ _ hpat
    -- on the external surface the request is for the hostname of the gateway
    have hext : ∀ runtime valid, surface=.external runtime valid →
        PeerAllowed node request runtime.allowedNetworks ∧ Addressed node request runtime runtime.hostname := by
      intro runtime valid hsur
      subst hsur
      obtain ⟨hpee,expected,hexp,hadd⟩ := admission_of_admitted hadm
      have hnam:=expectedHostname_unpublished hunp hexp
      refine ⟨hpee,?_⟩
      cases hpre : previewPath pathname with
      | none =>
        rw [hpre] at hnam
        dsimp only at hnam
        rw [← hnam]
        exact hadd
      | some named =>
        rw [hpre] at hnam
        obtain ⟨domain,hdom,rfl⟩ := hnam
        have hsam : named=route.id := by
          unfold previewPath at hpre
          rw [hcom] at hpre
          dsimp only at hpre
          split at hpre
          next => exact (Option.some.inj hpre).symm
          next => cases hpre
        rw [hsam] at hadd
        have hbou : isPreviewRequestHost node request route.id (.external runtime valid)=true :=
          preview_of_addressed (computerPath_idChar hcom) hdom hadd
        rw [hbou] at hhos
        cases hhos
    refine ⟨?_,?_,?_,?_⟩
    · intro id h
      rw [hres] at h
      cases h
    · intro id target publication computer _ _ hpub
      rw [hunp] at hpub
      cases hpub
    · intro id h
      refine ⟨hunp,fun other hoth => ?_⟩
      cases hsur : surface with
      | external runtime valid => exact other_of_addressed (hext runtime valid hsur).2 hoth
      | localhost =>
        rw [← hsur]
        by_contra hpre
        have hhos' : isPreviewRequestHost node request other.id surface=true := by simpa using hpre
        refine hnot ⟨by rw [hsur]; rfl,pathname,search,route.id,htar,hpat,by rw [hfou]; rfl,other,hoth,
          ?_,hhos'⟩
        intro heq
        rw [heq,hhos] at hhos'
        cases hhos'
    · intro id preview runtime valid h hsur
      rw [hres] at h
      cases h
      obtain ⟨hpee,hadd⟩ := hext runtime valid hsur
      exact ⟨hpee,runtime.hostname,rfl,hadd⟩

theorem plainRoute_spec (h : plainRoute pathname=some id) :
    ∃ rest, computerPath pathname=some (id,rest) ∧ begins rest "/previews/" = false := by
  unfold plainRoute at h
  split at h
  next found suffix hrou =>
    split at h
    next => cases h
    next hpla =>
      cases h
      obtain ⟨rest,hpat,rfl | ⟨rfl,rfl⟩⟩ := computerPath_of_route hrou
      · exact ⟨rest,hpat,by simpa using hpla⟩
      · exact ⟨"",hpat,by decide⟩
  next => cases h

theorem viewerRoute_spec (h : viewerRoute pathname=some id) :
    ∃ rest, computerPath pathname=some (id,rest) ∧ begins rest "/previews/" = false := by
  unfold viewerRoute at h
  split at h
  next found rest hpat =>
    split at h
    next hvie =>
      cases h
      exact ⟨rest,hpat,by rw [hvie]; decide⟩
    next => cases h
  next => cases h

theorem not_health_of_computerPath (h : computerPath pathname=some (id,rest)) : pathname ≠ "/health" := by
  rintro rfl
  have hnon : computerPath "/health" = none := by decide
  rw [hnon] at h
  cases h

section Misrouted
variable {checks : Checks}

theorem local_admits (h : surface.isExternal=false) : networkAllowed node surface request=true ∧
    authorityValid node surface request pathname=true := by
  cases surface with
  | localhost => exact ⟨rfl,rfl⟩
  | external runtime valid => cases h

theorem boundary_of_misrouted (hne : other≠id) (h : isPreviewRequestHost node request other surface=true) :
    isPreviewRequestHost node request id surface=false ∧ publicationPreviewRequest node request surface=none := by
  refine ⟨?_,publication_of_preview h⟩
  by_contra hsam
  exact hne (isPreviewRequestHost_unique h (by simpa using hsam))

theorem handle_of_misrouted (h : Misrouted node table surface request plainRoute) :
    ∃ id, (handle node table checks surface request).reached=some (id,false) := by
  obtain ⟨hloc,pathname,search,id,htar,hpla,hfou,other,hoth,hne,hhos⟩ := h
  obtain ⟨route,hrou⟩ := isSome_iff_exists.1 hfou
  obtain ⟨hbou,hunp⟩ := boundary_of_misrouted hne hhos
  obtain ⟨hnet,haut⟩ := @local_admits z node surface request pathname hloc
  obtain ⟨rest,hpat,-⟩ := plainRoute_spec hpla
  have hhea:=not_health_of_computerPath hpat
  unfold plainRoute at hpla
  split at hpla
  next named suffix hcom =>
    split at hpla
    next => cases hpla
    next hsuf =>
      cases hpla
      refine ⟨route.id,?_⟩
      unfold handle
      simp [hnet,haut,hloc,htar,hunp,hhea,hcom,hrou,hbou,hsuf,
        reached_computerRequest]
  next => cases hpla

theorem upgrade_of_misrouted (h : Misrouted node table surface request viewerRoute) :
    ∃ id, (upgrade node table checks surface request).reached=some (id,false) := by
  obtain ⟨hloc,pathname,search,id,htar,hvie,hfou,other,hoth,hne,hhos⟩ := h
  obtain ⟨route,hrou⟩ := isSome_iff_exists.1 hfou
  obtain ⟨hbou,hunp⟩ := boundary_of_misrouted hne hhos
  obtain ⟨hnet,haut⟩ := @local_admits z node surface request pathname hloc
  have hres : computerPath pathname=some (id,"/view/websockify") := by
    unfold viewerRoute at hvie
    split at hvie
    next named rest hpat =>
      split at hvie
      next heq =>
        cases hvie
        rw [hpat,heq]
      next => cases hvie
    next => cases hvie
  have hbeg : begins "/view/websockify" "/previews/" = false := by decide
  refine ⟨route.id,?_⟩
  unfold upgrade
  simp only [hnet,haut,hloc,htar,hunp,hres,hbeg,hrou,hbou,Bool.not_true,
    Bool.false_and,Bool.false_eq_true,if_false,if_true]
  unfold viewerUpgrade
  split
  next => rfl
  next => rfl

end Misrouted

theorem not_isolated_of_misrouted (h : Misrouted node table surface request plain)
    (hrea : ∃ id, outcome.reached=some (id,false)) : ¬ Isolated node table surface request outcome := by
  intro hiso
  obtain ⟨id,hid⟩ := hrea
  obtain ⟨-,-,-,-,-,-,-,other,hoth,-,hhos⟩ := h
  rw [(hiso.other id hid).2 other hoth] at hhos
  cases hhos

end Isolation

/-- The origins are isolated, and external admission is exact, unless a request to the local surface names
one computer outside its previews by its path and another by a preview host. -/
theorem origins_isolated_iff (node : Node z) (table : RouteTable) (checks : Checks) (surface : RequestSurface z)
    (request : Arrival) :
    (Isolated node table surface request (handle node table checks surface request) ↔
      ¬ Misrouted node table surface request plainRoute) ∧
    (Isolated node table surface request (upgrade node table checks surface request) ↔
      ¬ Misrouted node table surface request viewerRoute) := by
  refine ⟨⟨fun hiso hmis => ?_,fun hnot => ?_⟩,fun hiso hmis => ?_,fun hnot => ?_⟩
  · exact not_isolated_of_misrouted hmis (handle_of_misrouted hmis) hiso
  · exact isolated_of_course (fun _ _ => plainRoute_spec) (handle_course node table checks surface request) hnot
  · exact not_isolated_of_misrouted hmis (upgrade_of_misrouted hmis) hiso
  · exact isolated_of_course (fun _ _ => viewerRoute_spec) (upgrade_course node table checks surface request) hnot

/- `127.0.0.1`, also as a mapped address. -/
def loopbackAddress (text : String) : Option PeerAddress :=
  if text = "127.0.0.1" then some (.v4 0x7f000001)
  else if text.toList.map Char.toLower = "::ffff:127.0.0.1".toList then
    some (.v6 (BitVec.ofNat 128 (PeerAddress.mappedValue 0x7f000001)))
  else none

def loopbackFormats : Formats :=
  { exampleFormats with
    isIP := fun text => match loopbackAddress text with
      | none => 0
      | some (.v4 _) => 4
      | some (.v6 _) => 6 }

theorem colon_of_toLower (h : c.toLower = ':') : c = ':' := by
  unfold Char.toLower at h
  split at h
  next hupp =>
    have hval : c.val+('a'.val - 'A'.val) = ':'.val := congrArg Char.val h
    grind
  next => exact h

theorem loopbackAddress_chars (h : loopbackAddress name≠none) :
    name = "127.0.0.1" ∨ name.toList.map Char.toLower = "::ffff:127.0.0.1".toList := by
  unfold loopbackAddress at h
  split at h
  next heq => exact Or.inl heq
  next =>
    split at h
    next hmap => exact Or.inr hmap
    next => exact absurd rfl h

theorem loopbackAddress_head (h : loopbackAddress name≠none) : ∃ c ∈ name.toList.head?, addressChar c=true := by
  rcases loopbackAddress_chars h with rfl | hmapped
  · exact ⟨'1',by decide,by decide⟩
  · cases hnam : name.toList with
    | nil => simp [hnam] at hmapped
    | cons c rest =>
      rw [hnam] at hmapped
      have hcol : c = ':' := colon_of_toLower (List.cons.inj hmapped).1
      exact ⟨c,rfl,by rw [hcol]; decide⟩

theorem loopbackAddress_v4 {value : BitVec 32} (h : loopbackAddress name=some (.v4 value)) :
    name = "127.0.0.1" ∧ value=0x7f000001 := by
  unfold loopbackAddress at h
  split at h
  next heq =>
    have hval:=PeerAddress.v4.inj (Option.some.inj h)
    exact ⟨heq,hval.symm⟩
  next =>
    split at h
    next => exact absurd (Option.some.inj h) PeerAddress.noConfusion
    next => exact absurd h (some_ne_none _).symm

/- The host of an origin, in lower case and without the port. -/
def loopbackHostname (text : String) : String := String.ofList ((lowerCase text).toList.takeWhile (· ≠ ':'))

theorem loopbackHostname_dns (hnam : ∀ c ∈ name.toList, dnsChar c=true) (hres : rest = "" ∨ begins rest ":" = true)
    (h : lowerCase received=lowerCase (name++rest)) : loopbackHostname received=name := by
  have hnoc : ∀ c ∈ name.toList, decide (c ≠ ':')=true := by
    rintro c hc
    refine decide_eq_true fun heq => ?_
    rw [heq] at hc
    exact absurd (hnam _ hc) (by decide)
  unfold loopbackHostname
  rw [h,← String.toList_inj,String.toList_ofList]
  have hlow : (lowerCase (name++rest)).toList=name.toList++(lowerCase rest).toList := by
    conv => rhs; rw [← lowerCase_dns hnam]
    simp [lowerCase]
  rw [hlow,takeWhile_append_of_pos hnoc]
  rcases hres with rfl | hcolon
  · simp [lowerCase]
  · obtain ⟨port,rfl⟩ := begins_iff.1 hcolon
    simp [lowerCase]

theorem loopback_host {port : ℕ} :
    String.ofList ((exposureOrigin loopbackFormats name port).toList.drop "https://".length) =
      (if loopbackFormats.isIP name=6 then "[" ++ name ++ "]" else name) ++
        if port=443 then "" else ":" ++ toString port := by
  have hdro : ∀ rest : String, String.ofList (("https://" ++ rest).toList.drop "https://".length)=rest := by
    intro rest
    have hlen : "https://".toList.length = "https://".length := rfl
    rw [String.toList_append,drop_left' hlen,String.ofList_toList]
  unfold exposureOrigin
  rw [String.append_assoc]
  exact hdro _

theorem loopback_hostname_of_host {port : ℕ} (hnam : loopbackFormats.isIP name≠0 ∨ ∀ c ∈ name.toList, dnsChar c=true)
    (h : lowerCase received =
      lowerCase (String.ofList ((exposureOrigin loopbackFormats name port).toList.drop "https://".length))) :
    lowerCase (loopbackHostname received)=lowerCase name ∨
      (∃ c ∈ name.toList.head?, addressChar c=true) ∧
        ∃ c ∈ (loopbackHostname received).toList.head?, c.isDigit=true ∨ c = '[' := by
  rw [loopback_host] at h
  split at h
  next hsix =>
    refine Or.inr ⟨loopbackAddress_head fun hnon => ?_,'[',?_,Or.inr rfl⟩
    · have hzer : loopbackFormats.isIP name=0 := by
        show (match loopbackAddress name with | none => 0 | some (.v4 _) => 4 | some (.v6 _) => 6)=0
        rw [hnon]
      omega
    · unfold loopbackHostname
      rw [h]
      simp [lowerCase]
  next hoth =>
    have hdns : ∀ c ∈ name.toList, dnsChar c=true := by
      rcases hnam with hip | hdns
      · cases hadd : loopbackAddress name with
        | none =>
          refine absurd ?_ hip
          show (match loopbackAddress name with | none => 0 | some (.v4 _) => 4 | some (.v6 _) => 6)=0
          rw [hadd]
        | some address =>
          cases address with
          | v4 value =>
            rw [(loopbackAddress_v4 hadd).1]
            exact forall_chars (by decide)
          | v6 value =>
            refine absurd ?_ hoth
            show (match loopbackAddress name with | none => 0 | some (.v4 _) => 4 | some (.v6 _) => 6)=6
            rw [hadd]
      · exact hdns
    have hpor : (if port=443 then "" else ":" ++ toString port) = "" ∨
        begins (if port=443 then "" else ":" ++ toString port) ":" = true := by
      split
      next => exact Or.inl rfl
      next => exact Or.inr (begins_append _ _)
    exact Or.inl (congrArg lowerCase (loopbackHostname_dns hdns hpor h))

def loopbackNode : Node loopbackFormats where
  target url := if begins url "/" then some (url,"") else none
  hostname text := some (loopbackHostname text)
  host url := some (String.ofList (url.toList.drop "https://".length))
  address := loopbackAddress
  rooted url pathname search h := by
    obtain ⟨hbegins,heq⟩ := ite_none_right_eq_some.1 h
    cases heq
    exact hbegins
  isIP text := rfl
  address_head text value h := loopbackAddress_head (by rw [h]; exact some_ne_none value)
  mapped quad value h pre hpre := by
    obtain ⟨rfl,rfl⟩ := loopbackAddress_v4 h
    have hlower : (String.ofList (pre ++ "127.0.0.1".toList)).toList.map Char.toLower =
        "::ffff:127.0.0.1".toList := by
      rw [String.toList_ofList,map_append,hpre]
      decide
    have hne : String.ofList (pre ++ "127.0.0.1".toList) ≠ "127.0.0.1" := by
      intro heq
      rw [heq] at hlower
      exact absurd hlower (by decide)
    unfold loopbackAddress
    rw [if_neg hne,if_pos hlower]
    decide
  hostname_of_host name port authority received hname hhost hsame := by
    cases hhost
    exact ⟨_,rfl,loopback_hostname_of_host hname hsame⟩

def exampleNeighbour : String := "0b2f8a5c-93d4-4c1e-8d77-51e6c0a9f3b4"

def exampleRoute (id : String) : ProxyRoute where
  host := "computer"
  viewHost := none
  viewPort := none
  controlViewPort := none
  internalKey := "key"
  viewerAuthentication := none
  capabilities := []
  tokenHash := ""
  clientCredentials := []
  id := id
  controlPort := 7300

def exampleRoutes : RouteTable where
  routes := [exampleRoute exampleId,exampleRoute exampleNeighbour]
  ids := by
    intro route hroute
    simp only [mem_cons,not_mem_nil,or_false] at hroute
    rcases hroute with rfl | rfl
    · exact ⟨by decide,forall_chars (by decide)⟩
    · exact ⟨by decide,forall_chars (by decide)⟩

def exampleArrival : Arrival where
  method := "GET"
  httpVersion := "1.1"
  rawHeaders := [("Host","preview-0b2f8a5c-93d4-4c1e-8d77-51e6c0a9f3b4.localhost")]
  headers := [("host",["preview-0b2f8a5c-93d4-4c1e-8d77-51e6c0a9f3b4.localhost"])]
  named := by
    intro raw hraw
    obtain rfl := mem_singleton.1 hraw
    exact ⟨by decide,forall_chars (by decide)⟩
  clean := by
    intro raw hraw
    obtain rfl := mem_singleton.1 hraw
    exact forall_chars (by decide)
  merged name := by
    have hhost : lowerCase "Host" = "host" := by decide +kernel
    simp [hhost,eq_comm]
  filled := by
    intro header hheader
    obtain rfl := mem_singleton.1 hheader
    refine ⟨by decide,fun value hvalue => ?_⟩
    obtain rfl := mem_singleton.1 hvalue
    exact forall_chars (by decide)
  connection := by decide +kernel
  url := "/computers/" ++ exampleId ++ "/health"
  remoteAddress := some "127.0.0.1"
  encrypted := false
  servername := none

def exampleChecks : Checks where
  rate := true
  bodyTooLarge := false
  requestOrigin := false
  previewOrigin := false
  viewerOrigin := false
  browserOrigin := false
  busy := false
  bearer := false
  session := false
  operator := false
  aborted := false
  present := true
  entitled := false

/-- The health of one computer is answered on the preview origin of another. -/
theorem preview_origin_serves_health :
    handle loopbackNode exampleRoutes exampleChecks .localhost exampleArrival=.proxied exampleId false "/health" ∧
      ¬ Isolated loopbackNode exampleRoutes .localhost exampleArrival
        (handle loopbackNode exampleRoutes exampleChecks .localhost exampleArrival) := by
  have hhan : handle loopbackNode exampleRoutes exampleChecks .localhost exampleArrival =
      .proxied exampleId false "/health" := by
    decide +kernel
  refine ⟨hhan,fun hiso => ?_⟩
  rw [hhan] at hiso
  have hhos : isPreviewRequestHost loopbackNode exampleArrival exampleNeighbour .localhost=true := by
    decide +kernel
  have hoth : isPreviewRequestHost loopbackNode exampleArrival exampleNeighbour .localhost=false :=
    (hiso.other exampleId rfl).2 (exampleRoute exampleNeighbour) (by simp [exampleRoutes])
  rw [hhos] at hoth
  cases hoth

end Qubicl.Gateway
