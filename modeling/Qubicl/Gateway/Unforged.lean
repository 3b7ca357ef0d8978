import Qubicl.Gateway.Headers
import Qubicl.Foundation.StringMap

/-!
# No client header forges the gateway

A header that reaches a computer was set by the gateway, or it is a client's and has a name
that carries no authority.
-/

namespace Qubicl.Gateway
open Foundation Core Viewing List

def clientAddressHeaders : List String := ["cf-connecting-ip","true-client-ip","x-client-ip","x-real-ip"]

/-- A name under which a client must not reach a computer: one that carries authority or a client's
address, one of the connection itself, or one that the `Connection` headers name. -/
def Guarded (request : IncomingMessage) (name : String) : Prop :=
  lowerCase name ∈ ["authorization","cookie","host","forwarded","via"] ∨
  lowerCase name ∈ clientAddressHeaders ∨ lowerCase name ∈ hopByHopHeaders ∨
  (lowerCase name).startsWith "x-forwarded-" = true ∨ (lowerCase name).startsWith "x-qubicl-" = true ∨
  ∃ raw ∈ request.rawHeaders, lowerCase raw.1 = "connection" ∧ lowerCase name ∈ commaTokens raw.2.toList

/-- What `reached` has is the gateway's or a client's that is not guarded, and it has each header of
the gateway once. -/
structure Unforged (request : IncomingMessage) (cookies : Bool) (gateway reached : List (String × String)) : Prop where
  sound : ∀ header ∈ reached, header ∈ gateway ∨
    (∃ raw ∈ request.rawHeaders, lowerCase raw.1=lowerCase header.1) ∧
      (¬ Guarded request header.1 ∨ cookies=true ∧ lowerCase header.1 = "cookie")
  once : ∀ header ∈ gateway, (reached.filter fun other => lowerCase other.1 == lowerCase header.1)=[header]

theorem commaTokens_append (xs ys : List Char) :
    commaTokens (xs ++ ',' :: ys)=commaTokens xs++commaTokens ys := by
  unfold commaTokens
  rw [splitOn_append_cons_self]
  simp only [map_append,filter_append]

theorem trim_space (cs : List Char) : Number.trim (' ' :: cs)=Number.trim cs := by
  unfold Number.trim
  rw [dropWhile_cons_of_pos (by decide)]

theorem commaTokens_space (cs : List Char) : commaTokens (' ' :: cs)=commaTokens cs := by
  unfold commaTokens
  rw [splitOn_cons_eq_if_modifyHead,if_neg (by decide)]
  cases h : cs.splitOn ',' with
  | nil => exact absurd h (List.splitOn_ne_nil _ _)
  | cons token rest => simp only [modifyHead_cons,map_cons,trim_space]

theorem commaTokens_nil : commaTokens []=[] := by decide

theorem mem_commaTokens_intercalate {token : String} {values : List String} :
    token ∈ commaTokens (", ".intercalate values).toList ↔ ∃ value ∈ values, token ∈ commaTokens value.toList := by
  induction values with
  | nil => simp [String.intercalate_nil,commaTokens_nil]
  | cons value values ih =>
    cases values with
    | nil => simp [String.intercalate_singleton]
    | cons next rest =>
      rw [String.intercalate_cons_cons,String.toList_append,String.toList_append]
      have hspl : value.toList ++ ", ".toList++(", ".intercalate (next::rest)).toList =
          value.toList ++ ',' :: (' ' :: (", ".intercalate (next::rest)).toList) := by simp
      rw [hspl,commaTokens_append,commaTokens_space,mem_append,ih]
      simp only [exists_mem_cons_iff]

variable {gateway headers settings : List (String × String)} {header : String × String}

section Names
variable {request : IncomingMessage} {name : String} {cookies : Bool}

theorem mem_connectionHeaderTokens {token : String} : token ∈ connectionHeaderTokens request ↔
    ∃ raw ∈ request.rawHeaders, lowerCase raw.1 = "connection" ∧ token ∈ commaTokens raw.2.toList := by
  have hvas : token ∈ connectionHeaderTokens request ↔
      ∃ value ∈ rawValues request.rawHeaders "connection", token ∈ commaTokens value.toList := by
    unfold connectionHeaderTokens
    rw [request.connection]
    split
    next hnon => simp [hnon,String.intercalate_nil,commaTokens_nil]
    next =>
      dsimp only [Option.getD_some]
      rw [String.intercalate_singleton]
      exact mem_commaTokens_intercalate
  rw [hvas]
  unfold rawValues
  constructor
  · rintro ⟨value,hval,htok⟩
    obtain ⟨raw,hraw,rfl⟩ := mem_map.1 hval
    obtain ⟨hmem,hnam⟩ := mem_filter.1 hraw
    exact ⟨raw,hmem,by simpa using hnam,htok⟩
  · rintro ⟨raw,hmem,hnam,htok⟩
    exact ⟨raw.2,mem_map_of_mem (mem_filter.2 ⟨hmem,by simpa using hnam⟩),htok⟩

theorem not_guarded_of_kept (h : stripForwardedHeader name (connectionHeaderTokens request) cookies=false) :
    ¬ Guarded request name ∨ cookies=true ∧ lowerCase name = "cookie" := by
  unfold stripForwardedHeader at h
  dsimp only at h
  split at h
  next hcoo =>
    right
    simpa using hcoo
  next =>
    left
    simp only [Bool.or_eq_false_iff,contains_eq_mem,decide_eq_false_iff_not] at h
    obtain ⟨⟨⟨⟨hhop,hpro⟩,htok⟩,hfor⟩,hqub⟩ := h
    rintro (hname | hname | hname | hname | hname | hname)
    · refine hpro (List.Sublist.subset ?_ hname)
      decide
    · refine hpro (List.Sublist.subset ?_ hname)
      decide
    · exact hhop hname
    · rw [hfor] at hname
      cases hname
    · rw [hqub] at hname
      cases hname
    · exact htok (mem_connectionHeaderTokens.2 hname)

theorem Guarded.congr {other : String} (h : Guarded request name) (hsam : lowerCase other=lowerCase name) :
    Guarded request other := by
  unfold Guarded
  rw [hsam]
  exact h

structure Harmless (request : IncomingMessage) (cookies : Bool) (header : String × String) : Prop where
  client : ∃ raw ∈ request.rawHeaders, lowerCase raw.1=lowerCase header.1
  plain : ¬ Guarded request header.1 ∨ cookies=true ∧ lowerCase header.1 = "cookie"

theorem filter_eq_singleton (hnod : (gateway.map fun header => lowerCase header.1).Nodup) (hmem : header ∈ gateway) :
    (gateway.filter fun other => lowerCase other.1 == lowerCase header.1)=[header] := by
  induction gateway with
  | nil => cases hmem
  | cons first rest ih =>
    rw [map_cons,nodup_cons] at hnod
    rcases mem_cons.1 hmem with rfl | hrest
    · rw [filter_cons_of_pos (by simp),filter_eq_nil_iff.2]
      intro other hoth hsam
      exact hnod.1 (mem_map.2 ⟨other,hoth,by simpa using hsam⟩)
    · rw [filter_cons_of_neg,ih hnod.2 hrest]
      intro hsam
      have heq : lowerCase first.1=lowerCase header.1 := by simpa using hsam
      exact hnod.1 (mem_map.2 ⟨header,hrest,heq.symm⟩)

theorem unforged_of_harmless {client : List (String × String)}
    (hcli : ∀ header ∈ client, Harmless request cookies header)
    (hgat : ∀ header ∈ gateway, Guarded request header.1 ∧ lowerCase header.1 ≠ "cookie")
    (hnod : (gateway.map fun header => lowerCase header.1).Nodup) :
    Unforged request cookies gateway (client++gateway) where
  sound := by
    intro header hhea
    rcases mem_append.1 hhea with hmem | hmem
    · exact Or.inr ⟨(hcli header hmem).client,(hcli header hmem).plain⟩
    · exact Or.inl hmem
  once := by
    intro header hhea
    rw [filter_append,filter_eq_singleton hnod hhea,filter_eq_nil_iff.2,nil_append]
    intro other hoth hsam
    have heq : lowerCase other.1=lowerCase header.1 := by simpa using hsam
    obtain ⟨hgua,hcoo⟩ := hgat header hhea
    rcases (hcli other hoth).plain with hpla | ⟨-,hnam⟩
    · exact hpla (hgua.congr heq)
    · exact hcoo (heq.symm.trans hnam)

theorem guarded_qubicl (h : (lowerCase name).startsWith "x-qubicl-" = true) :
    Guarded request name ∧ lowerCase name ≠ "cookie" := by
  refine ⟨Or.inr (Or.inr (Or.inr (Or.inr (Or.inl h)))),fun hcoo => ?_⟩
  rw [hcoo] at h
  exact absurd h (by decide)

theorem guarded_hop (h : lowerCase name ∈ hopByHopHeaders) : Guarded request name ∧ lowerCase name ≠ "cookie" := by
  refine ⟨Or.inr (Or.inr (Or.inl h)),fun hcoo => ?_⟩
  rw [hcoo] at h
  exact absurd h (by decide)

theorem guarded_host (h : lowerCase name = "host") : Guarded request name ∧ lowerCase name ≠ "cookie" := by
  constructor
  · left
    rw [h]
    decide
  · rw [h]
    decide

end Names

def lowerNames (headers : List (String × String)) : List String := headers.map fun header => lowerCase header.1

theorem lowerCase_set :
    lowerCase "x-qubicl-preview-authorization" = "x-qubicl-preview-authorization" ∧
      lowerCase "x-qubicl-preview-host" = "x-qubicl-preview-host" ∧
      lowerCase "x-qubicl-preview-proto" = "x-qubicl-preview-proto" ∧
      lowerCase "x-qubicl-viewer-key" = "x-qubicl-viewer-key" ∧
      lowerCase "x-qubicl-internal-key" = "x-qubicl-internal-key" ∧
      lowerCase "x-qubicl-gateway-epoch" = "x-qubicl-gateway-epoch" ∧
      lowerCase "x-qubicl-access-surface" = "x-qubicl-access-surface" ∧
      lowerCase "x-qubicl-client-id" = "x-qubicl-client-id" ∧
      lowerCase "x-qubicl-client-label" = "x-qubicl-client-label" ∧
      lowerCase "x-qubicl-client-scopes" = "x-qubicl-client-scopes" ∧
      lowerCase "Host" = "host" ∧
      lowerCase "Connection" = "connection" ∧
      lowerCase "Upgrade" = "upgrade" ∧
      lowerCase "X-Qubicl-Internal-Key" = "x-qubicl-internal-key" ∧
      lowerCase "X-Qubicl-Gateway-Epoch" = "x-qubicl-gateway-epoch" ∧
      lowerCase "X-Qubicl-Access-Surface" = "x-qubicl-access-surface" ∧
      lowerCase "X-Qubicl-Preview-Host" = "x-qubicl-preview-host" ∧
      lowerCase "X-Qubicl-Preview-Proto" = "x-qubicl-preview-proto" ∧
      lowerCase "X-Qubicl-Preview-Authorization" = "x-qubicl-preview-authorization" ∧
      lowerCase "X-Qubicl-Viewer-Key" = "x-qubicl-viewer-key" ∧
      lowerCase viewerKeyHeader = "x-qubicl-viewer-key" := by
  decide +kernel

section Settings
variable (forwarding : Forwarding) (request : IncomingMessage)

theorem lowerNames_previewSettings : (lowerNames (forwarding.previewSettings request)).Sublist
    ["x-qubicl-preview-authorization","x-qubicl-preview-host","x-qubicl-preview-proto"] := by
  unfold lowerNames Forwarding.previewSettings
  cases request.header "authorization" <;> cases request.header "host" <;>
    · simp only [Option.map_some,Option.map_none,Option.toList_some,Option.toList_none,map_append,
        map_cons,map_nil,lowerCase_set]
      decide

theorem lowerNames_viewerSettings : (lowerNames forwarding.viewerSettings).Sublist ["x-qubicl-viewer-key"] := by
  unfold lowerNames Forwarding.viewerSettings
  split <;>
    · simp only [map_cons,map_nil,lowerCase_set]
      decide

theorem lowerNames_clientSettings : (lowerNames (forwarding.serviceSettings++forwarding.clientSettings)).Sublist
    ["x-qubicl-internal-key","x-qubicl-gateway-epoch","x-qubicl-access-surface","x-qubicl-client-id",
      "x-qubicl-client-label","x-qubicl-client-scopes"] := by
  unfold lowerNames Forwarding.serviceSettings Forwarding.clientSettings
  cases forwarding.client <;>
    · simp only [map_append,map_cons,map_nil,lowerCase_set]
      decide

def proxyNames : List String :=
  ["x-qubicl-preview-authorization","x-qubicl-preview-host","x-qubicl-preview-proto","x-qubicl-viewer-key",
    "x-qubicl-internal-key","x-qubicl-gateway-epoch","x-qubicl-access-surface","x-qubicl-client-id",
    "x-qubicl-client-label","x-qubicl-client-scopes"]

theorem lowerNames_proxySettings (previewProxy view : Bool) :
    (lowerNames (forwarding.proxySettings request previewProxy view)).Sublist proxyNames := by
  have hpre : (lowerNames (if previewProxy then forwarding.previewSettings request else [])).Sublist
      ["x-qubicl-preview-authorization","x-qubicl-preview-host","x-qubicl-preview-proto"] := by
    split
    next => exact lowerNames_previewSettings forwarding request
    next => exact nil_sublist _
  have hres : (lowerNames (if view then forwarding.viewerSettings
      else forwarding.serviceSettings++forwarding.clientSettings)).Sublist
      (["x-qubicl-viewer-key"]++["x-qubicl-internal-key","x-qubicl-gateway-epoch","x-qubicl-access-surface",
        "x-qubicl-client-id","x-qubicl-client-label","x-qubicl-client-scopes"]) := by
    split
    next => exact (lowerNames_viewerSettings forwarding).trans (sublist_append_left _ _)
    next => exact (lowerNames_clientSettings forwarding).trans (sublist_append_right _ _)
  unfold Forwarding.proxySettings lowerNames
  rw [map_append]
  exact hpre.append hres

theorem lowerNames_proxyHeaders (previewProxy view : Bool) :
    (lowerNames (forwarding.proxySettings request previewProxy view++forwarding.nodeHeaders view)).Sublist
      (proxyNames++["host","connection"]) := by
  unfold lowerNames
  rw [map_append]
  refine (lowerNames_proxySettings forwarding request previewProxy view).append ?_
  unfold Forwarding.nodeHeaders
  simp only [map_cons,map_nil,lowerCase_set]
  decide

def relayNames : List String :=
  ["host","connection","upgrade","x-qubicl-internal-key","x-qubicl-gateway-epoch","x-qubicl-access-surface",
    "x-qubicl-preview-host","x-qubicl-preview-proto","x-qubicl-preview-authorization","x-qubicl-viewer-key"]

theorem lowerNames_previewRelay : (lowerNames (forwarding.previewRelaySettings request)).Sublist relayNames := by
  unfold lowerNames Forwarding.previewRelaySettings Forwarding.relaySettings
  cases request.header "authorization" <;> cases request.header "host" <;>
    · simp only [Option.map_some,Option.map_none,Option.toList_some,Option.toList_none,map_append,
        map_cons,map_nil,lowerCase_set]
      decide

theorem lowerNames_viewerRelay (viewPort : ℕ) :
    (lowerNames (forwarding.viewerRelaySettings viewPort)).Sublist relayNames := by
  unfold lowerNames Forwarding.viewerRelaySettings Forwarding.relaySettings
  split <;>
    · simp only [map_append,map_cons,map_nil,lowerCase_set]
      decide

end Settings

theorem guarded_of_set {request : IncomingMessage} {name : String}
    (h : lowerCase name ∈ proxyNames++["host","connection"] ∨ lowerCase name ∈ relayNames) :
    Guarded request name ∧ lowerCase name ≠ "cookie" := by
  have hset : lowerCase name = "host" ∨ lowerCase name ∈ hopByHopHeaders ∨
      (lowerCase name).startsWith "x-qubicl-" = true := by
    generalize lowerCase name=lowered at h
    have hall : ∀ lowered ∈ (proxyNames++["host","connection"])++relayNames,
        lowered = "host" ∨ lowered ∈ hopByHopHeaders ∨ lowered.startsWith "x-qubicl-" = true := by
      decide +kernel
    exact hall lowered (mem_append.2 h)
  rcases hset with hhos | hhop | hqubicl
  · exact guarded_host hhos
  · exact guarded_hop hhop
  · exact guarded_qubicl hqubicl

section Client
variable {request : IncomingMessage} {cookies : Bool}

theorem harmless_upgrade : ∀ header ∈ sanitizedUpgradeHeaders request cookies, Harmless request cookies header := by
  intro header hhea
  obtain ⟨hmem,hkep⟩ := mem_filter.1 hhea
  exact ⟨⟨header,hmem,rfl⟩,not_guarded_of_kept (by simpa using hkep)⟩

theorem header_named {header : String × List String} (h : header ∈ request.headers) :
    ∃ raw ∈ request.rawHeaders, lowerCase raw.1=header.1 :=
  (request.merged header.1).1 (mem_map_of_mem h)

theorem harmless_proxy : ∀ header ∈ sent (sanitizedProxyHeaders request cookies), Harmless request cookies header := by
  intro header hhea
  obtain ⟨entry,hent,hval⟩ := mem_flatMap.1 hhea
  obtain ⟨value,-,rfl⟩ := mem_map.1 hval
  obtain ⟨hmem,hkep⟩ := mem_filter.1 hent
  obtain ⟨raw,hraw,hnam⟩ := header_named hmem
  refine ⟨⟨raw,hraw,?_⟩,not_guarded_of_kept (by simpa using hkep)⟩
  show lowerCase raw.1=lowerCase entry.1
  rw [← hnam,lowerCase_lowerCase]

theorem proxy_fresh (hnam : (lowerNames settings).Sublist proxyNames) {header : String × List String}
    (hhea : header ∈ sanitizedProxyHeaders request cookies) : ∀ setting ∈ settings, header.1≠setting.1 := by
  intro setting hset heq
  obtain ⟨hmem,hkep⟩ := mem_filter.1 hhea
  have hnae : lowerCase setting.1 ∈ proxyNames := hnam.subset (mem_map_of_mem hset)
  obtain ⟨hgua,hcoo⟩ := @guarded_of_set request setting.1 (Or.inl (mem_append_left _ hnae))
  have hhar : ¬ Guarded request header.1 ∨ cookies=true ∧ lowerCase header.1 = "cookie" :=
    not_guarded_of_kept (by simpa using hkep)
  rcases hhar with hpla | ⟨-,hisCookie⟩
  · exact hpla (hgua.congr (by rw [heq]))
  · rw [heq] at hisCookie
    exact hcoo hisCookie

theorem foldl_assign {headers : List (String × List String)}
    (hfre : ∀ header ∈ headers, ∀ setting ∈ settings, header.1≠setting.1) (hnod : (settings.map Prod.fst).Nodup) :
    sent (settings.foldl assign headers)=sent headers++settings := by
  induction settings generalizing headers with
  | nil => simp
  | cons setting rest ih =>
    rw [map_cons,nodup_cons] at hnod
    have hass : assign headers setting=headers++[(setting.1,[setting.2])] := by
      unfold assign
      rw [if_neg]
      intro hany
      obtain ⟨header,hhea,heq⟩ := any_eq_true.1 hany
      exact hfre header hhea setting mem_cons_self (by simpa using heq)
    rw [foldl_cons,hass,ih _ hnod.2]
    · simp [sent]
    · intro header hhea other hoth
      rcases mem_append.1 hhea with hold | hnew
      · exact hfre header hold other (mem_cons_of_mem _ hoth)
      · rw [mem_singleton.1 hnew]
        exact fun heq => hnod.1 (mem_map.2 ⟨other,hoth,heq.symm⟩)

theorem names_nodup (h : (lowerNames headers).Nodup) : (headers.map Prod.fst).Nodup := by
  have hnam : lowerNames headers=(headers.map Prod.fst).map lowerCase := by
    rw [map_map]
    rfl
  rw [hnam] at h
  exact h.of_map _

end Client

theorem readHeaderLine_headerLine (h : ':' ∉ header.1.toList) : readHeaderLine (headerLine header)=header := by
  have hlin : (headerLine header).toList=header.1.toList ++ ':' :: ' ' :: header.2.toList := by
    simp [headerLine]
  have hall : ∀ c ∈ header.1.toList, (decide (c ≠ ':'))=true := by
    intro c hc
    simp only [decide_eq_true_eq]
    rintro rfl
    exact h hc
  unfold readHeaderLine
  rw [hlin,takeWhile_append_of_pos hall,dropWhile_append_of_pos hall]
  simp

theorem colon_not_mem_token {name : String} (h : ∀ c ∈ name.toList, tokenChar c=true) : ':' ∉ name.toList :=
  fun hmem => absurd (h ':' hmem) (by decide)

theorem map_readHeaderLine (h : ∀ header ∈ headers, ':' ∉ header.1.toList) :
    (headers.map headerLine).map readHeaderLine=headers := by
  rw [map_map]
  conv => rhs; rw [← map_id headers]
  exact map_congr_left fun header hhea => readHeaderLine_headerLine (h header hhea)

section Reached
variable (forwarding : Forwarding) (request : IncomingMessage)

theorem proxyHeaders_eq (previewProxy view : Bool) : forwarding.proxyHeaders request previewProxy view =
    sent (sanitizedProxyHeaders request previewProxy) ++
      (forwarding.proxySettings request previewProxy view++forwarding.nodeHeaders view) := by
  have hnam:=lowerNames_proxySettings forwarding request previewProxy view
  unfold Forwarding.proxyHeaders Forwarding.proxyObject
  rw [foldl_assign (fun header hhea => proxy_fresh hnam hhea)
    (names_nodup (List.Nodup.sublist hnam (by decide))),append_assoc]

theorem unforged_proxy (previewProxy view : Bool) : Unforged request previewProxy
    (forwarding.proxySettings request previewProxy view++forwarding.nodeHeaders view)
    (forwarding.proxyHeaders request previewProxy view) := by
  have hnam:=lowerNames_proxyHeaders forwarding request previewProxy view
  rw [proxyHeaders_eq]
  refine unforged_of_harmless harmless_proxy ?_ (List.Nodup.sublist hnam (by decide))
  exact fun header hhea => guarded_of_set (Or.inl (hnam.subset (mem_map_of_mem hhea)))

theorem unforged_relay (cookies : Bool) (hnam : (lowerNames settings).Sublist relayNames)
    (hcol : ∀ setting ∈ settings, ':' ∉ setting.1.toList) :
    Unforged request cookies settings
      ((sanitizedUpgradeHeaderLines request cookies++settings.map headerLine).map readHeaderLine) := by
  have hcli : (sanitizedUpgradeHeaderLines request cookies).map readHeaderLine =
      sanitizedUpgradeHeaders request cookies := by
    refine map_readHeaderLine fun header hhea => colon_not_mem_token ?_
    exact (request.named header (mem_filter.1 hhea).1).2
  rw [map_append,hcli,map_readHeaderLine hcol]
  refine unforged_of_harmless harmless_upgrade ?_ (List.Nodup.sublist hnam (by decide))
  exact fun header hhea => guarded_of_set (Or.inr (hnam.subset (mem_map_of_mem hhea)))

theorem colon_previewRelay : ∀ setting ∈ forwarding.previewRelaySettings request, ':' ∉ setting.1.toList := by
  intro setting hset
  have hnam : setting.1 ∈ (forwarding.previewRelaySettings request).map Prod.fst := mem_map_of_mem hset
  generalize setting.1=name at hnam
  revert name
  unfold Forwarding.previewRelaySettings Forwarding.relaySettings
  cases request.header "authorization" <;> cases request.header "host" <;>
    · simp only [Option.map_some,Option.map_none,Option.toList_some,Option.toList_none,map_append,
        map_cons,map_nil]
      decide

theorem colon_viewerRelay (viewPort : ℕ) :
    ∀ setting ∈ forwarding.viewerRelaySettings viewPort, ':' ∉ setting.1.toList := by
  intro setting hset
  have hnam : setting.1 ∈ (forwarding.viewerRelaySettings viewPort).map Prod.fst := mem_map_of_mem hset
  generalize setting.1=name at hnam
  revert name
  unfold Forwarding.viewerRelaySettings Forwarding.relaySettings
  split <;>
    · simp only [map_append,map_cons,map_nil]
      decide

/- What is read of a client is free of line breaks. -/
theorem header_clean {name value : String} (h : request.header name=some value) :
    ∀ c ∈ value.toList, valueChar c=true := by
  unfold IncomingMessage.header at h
  split at h
  next values hloo =>
    cases h
    exact (request.filled _ (mem_of_lookup hloo)).2 value (mem_singleton.2 rfl)
  next => cases h

theorem tokenChar_valueChar {c : Char} (h : tokenChar c=true) : valueChar c=true := by
  unfold tokenChar at h
  simp only [Bool.and_eq_true,decide_eq_true_eq] at h
  obtain ⟨⟨⟨hlow,-⟩,-⟩,-⟩ := h
  unfold valueChar
  have h0 : c.toNat≠0 := by omega
  have h10 : c.toNat≠10 := by omega
  have h13 : c.toNat≠13 := by omega
  simp [h0,h10,h13]

theorem line_clean {cookies : Bool} {line : String} (h : line ∈ sanitizedUpgradeHeaderLines request cookies) :
    ∀ c ∈ line.toList, valueChar c=true := by
  obtain ⟨header,hhea,rfl⟩ := mem_map.1 h
  have hraw:=(mem_filter.1 hhea).1
  intro c hc
  have hlin : (headerLine header).toList=header.1.toList ++ ':' :: ' ' :: header.2.toList := by
    simp [headerLine]
  rw [hlin] at hc
  simp only [mem_append,mem_cons] at hc
  rcases hc with hnam | rfl | rfl | hvalue
  · exact tokenChar_valueChar ((request.named header hraw).2 c hnam)
  · decide
  · decide
  · exact request.clean header hraw c hvalue

theorem stripForwardedHeader_lowerCase (name : String) (tokens : List String) (cookies : Bool) :
    stripForwardedHeader (lowerCase name) tokens cookies=stripForwardedHeader name tokens cookies := by
  unfold stripForwardedHeader
  rw [lowerCase_lowerCase]

theorem same_names (cookies : Bool) (name : String) :
    (∃ header ∈ sent (sanitizedProxyHeaders request cookies), header.1=name) ↔
      ∃ raw ∈ sanitizedUpgradeHeaders request cookies, lowerCase raw.1=name := by
  constructor
  · rintro ⟨header,hhea,rfl⟩
    obtain ⟨entry,hent,hval⟩ := mem_flatMap.1 hhea
    obtain ⟨value,-,rfl⟩ := mem_map.1 hval
    obtain ⟨hmem,hkep⟩ := mem_filter.1 hent
    obtain ⟨raw,hraw,hnam⟩ := header_named hmem
    refine ⟨raw,mem_filter.2 ⟨hraw,?_⟩,hnam⟩
    rw [← stripForwardedHeader_lowerCase,hnam]
    exact hkep
  · rintro ⟨raw,hraw,rfl⟩
    obtain ⟨hmem,hkep⟩ := mem_filter.1 hraw
    obtain ⟨entry,hent,hnam⟩ := mem_map.1 ((request.merged _).2 ⟨raw,hmem,rfl⟩)
    obtain ⟨value,hval⟩ := exists_mem_of_ne_nil _ (request.filled entry hent).1
    refine ⟨(entry.1,value),mem_flatMap.2 ⟨entry,mem_filter.2 ⟨hent,?_⟩,?_⟩,hnam⟩
    · rw [hnam,stripForwardedHeader_lowerCase]
      exact hkep
    · exact mem_map_of_mem hval

end Reached

end Qubicl.Gateway
