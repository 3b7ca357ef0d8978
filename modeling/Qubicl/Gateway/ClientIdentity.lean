import Qubicl.Control.ClientScope
import Qubicl.Core.LegacyJournal
import Qubicl.Foundation.RegexLanguage
import Qubicl.Foundation.Text
import Qubicl.Gateway.Unforged

/-!
# A client's identity on its way to the computer (packages/gateway/src/server.ts:693-705, core/src/client-credentials.ts:9-23)

The gateway writes a credential into three headers. The label may have any characters, and a header may not.
-/

namespace Qubicl.Gateway
open Foundation Core Viewing Control List

/- What `RuntimeClientCredentialSchema` has beside what the gateway reads later. -/
structure StoredClientCredential extends RuntimeClientCredential where
  createdAt : String
  deriving DecidableEq, Repr

def runtimeClientCredentialValid (z : Formats) (value : StoredClientCredential) : Bool :=
  clientCredentialId value.id && lengthWithin 1 120 value.label && sizeWithin 1 5 value.scopes &&
    allUnique value.scopes && z.datetime value.createdAt && materialId value.tokenHash

def runtimeClientCredentialSchema (z : Formats) : Schema StoredClientCredential where
  parse value :=
    let trimmed:={ value with label := trimText value.label }
    if runtimeClientCredentialValid z trimmed then some trimmed else none
  stable {x y} h := by
    obtain ⟨hvalid,hy⟩ := Option.ite_none_right_eq_some.1 h
    cases hy
    simp only [trimText_trimText]
    exact if_pos hvalid

/-- A character that a header value may have. -/
def headerValueChar (c : Char) : Bool := c = '\t' || (32≤c.toNat && c.toNat≤126) || (128≤c.toNat && c.toNat≤255)

def LegalHeaderValue (value : String) : Prop := ∀ c ∈ value.toList, headerValueChar c=true

/-- A value arrives without white space around it. -/
def ReceivedValue (value received : String) : Prop :=
  ∃ a b, value.toList=a++received.toList++b ∧ (∀ c ∈ a, Number.isSpace c=true) ∧ ∀ c ∈ b, Number.isSpace c=true

def Delivered (headers received : List (String × String)) : Prop :=
  List.Forall₂ (fun header arrived => arrived.1=lowerCase header.1 ∧ ReceivedValue header.2 arrived.2) headers received

/-- `headers[name]` of a request: values of one name are joined. -/
def incomingHeader (received : List (String × String)) (name : String) : Option String :=
  match rawValues received name with
  | [] => none
  | values => some (", ".intercalate values)

def clientCredentialFromNodeHeaders (received : List (String × String)) : Except QubiclError ClientCredentialContext :=
  parseClientCredential (incomingHeader received "x-qubicl-client-id") (incomingHeader received "x-qubicl-client-label")
    (incomingHeader received "x-qubicl-client-scopes")

/-- The identity that the computer reads is the client's. -/
structure SameIdentity (context : ClientCredentialContext) (client : RuntimeClientCredential) : Prop where
  id : context.id=client.id
  scopes : ∀ scope, scope ∈ context.scopes ↔ scope ∈ client.scopes
  label : labelWords context.label=labelWords client.label

/-- The headers of the identity can be sent, and however they arrive they are read as the same one. -/
structure Survives (forwarding : Forwarding) (request : IncomingMessage) (previewProxy : Bool)
    (client : RuntimeClientCredential) : Prop where
  legal : ∀ header ∈ forwarding.clientSettings, LegalHeaderValue header.2
  read : ∀ received, Delivered (forwarding.proxyHeaders request previewProxy false) received →
    ∃ context, clientCredentialFromNodeHeaders received=.ok context ∧ SameIdentity context client

section
variable {value received : String}

theorem receivedValue_eq (htig : Cookies.Tight Number.isSpace value.toList) (hne : value ≠ "")
    (h : ReceivedValue value received) : received=value := by
  obtain ⟨a,b,hval,ha,hb⟩ := h
  have hnil : value.toList≠[] := fun hnil => hne (String.toList_eq_nil_iff.1 hnil)
  have hfro : a=[] := by
    cases a with
    | nil => rfl
    | cons c a =>
      have hhea : c ∈ value.toList.head? := by
        rw [hval]
        rfl
      have hspa:=ha c mem_cons_self
      rw [htig.1 c hhea] at hspa
      cases hspa
  have hbac : b=[] := by
    rcases eq_nil_or_concat b with hb' | ⟨rest,c,hb'⟩
    · exact hb'
    · have hlas : c ∈ value.toList.getLast? := by
        rw [hval,hb',concat_eq_append,← append_assoc,getLast?_concat]
        rfl
      have hspa:=hb c (by rw [hb',concat_eq_append]; exact mem_append_right _ (mem_singleton_self c))
      rw [htig.2 c hlas] at hspa
      cases hspa
  rw [hfro,hbac,nil_append,append_nil] at hval
  exact (String.toList_inj.1 hval).symm

theorem tight_of_plain {cs : List Char} (h : ∀ c ∈ cs, Number.isSpace c=false) : Cookies.Tight Number.isSpace cs :=
  ⟨fun c hc => h c (mem_of_mem_head? hc),fun c hc => h c (mem_of_mem_getLast? hc)⟩

end

variable {scopes : List ClientCredentialScope}

section
variable {c : Char} {id : String}

theorem printed (hlow : 33≤c.toNat) (hhig : c.toNat≤126) : headerValueChar c=true ∧ Number.isSpace c=false := by
  constructor
  · have hmid : 32≤c.toNat := by omega
    simp [headerValueChar,hmid,hhig]
  · exact Number.isSpace_printed hlow hhig

theorem lowerOrDigit_printed (h : lowerOrDigit.allows c=true) : 33≤c.toNat ∧ c.toNat≤126 := by
  simp only [lowerOrDigit,Regex.choice,lower,digit,Regex.range,foldr_cons,foldr_nil,Regex.allows,
    Bool.or_false,Bool.or_eq_true,Bool.and_eq_true,decide_eq_true_eq] at h
  rcases h with ⟨hlow,hhig⟩ | ⟨hlow,hhig⟩
  · have hfro : 97≤c.toNat := hlow
    have hto : c.toNat≤122 := hhig
    omega
  · have hfro : 48≤c.toNat := hlow
    have hto : c.toNat≤57 := hhig
    omega

theorem clientCredentialId_printed (h : clientCredentialId id=true) :
    id ≠ "" ∧ ∀ c ∈ id.toList, 33≤c.toNat ∧ c.toNat≤126 := by
  refine ⟨fun hnil => absurd h (by rw [hnil]; decide),?_⟩
  intro c hc
  have hall:=Regex.allows_of_mem ((Regex.test_iff _ _).1 h) c hc
  simp only [Regex.allows,Bool.or_eq_true] at hall
  rcases hall with hfir | hrest
  · exact lowerOrDigit_printed hfir
  · have hcla:=Regex.allows_upTo hrest
    simp only [Regex.choice,Regex.oneOf,foldr_cons,foldr_nil,Regex.allows,Bool.or_false,
      Bool.or_eq_true] at hcla
    rcases hcla with hlet | hdash
    · exact lowerOrDigit_printed hlet
    · obtain rfl : c = '-' := by simpa using hdash
      decide

theorem scopes_printed : ∀ c ∈ (",".intercalate (scopes.map scopeText)).toList, 33≤c.toNat ∧ c.toNat≤126 := by
  intro c hc
  have hjoi : ∀ texts : List (List Char), (∀ text ∈ texts, ∀ c ∈ text, 33≤c.toNat ∧ c.toNat≤126) →
      ∀ c ∈ List.intercalate [','] texts, 33≤c.toNat ∧ c.toNat≤126 := by
    intro texts htex
    induction texts with
    | nil => exact fun c hc => absurd hc not_mem_nil
    | cons text rest ih =>
      have hhea:=htex text mem_cons_self
      have hres:=ih fun other hoth => htex other (mem_cons_of_mem text hoth)
      cases rest with
      | nil => simpa using hhea
      | cons other rest =>
        intro c hc
        rw [intercalate_cons_cons] at hc
        rcases mem_append.1 hc with hfir | hlater
        · rcases mem_append.1 hfir with hin | hcomma
          · exact hhea c hin
          · obtain rfl := mem_singleton.1 hcomma
            decide
        · exact hres c hlater
  rw [String.toList_intercalate] at hc
  refine hjoi _ ?_ c hc
  intro text htet c hin
  obtain ⟨_,hmem,rfl⟩ := mem_map.1 htet
  obtain ⟨scope,-,rfl⟩ := mem_map.1 hmem
  have hall : ∀ scope : ClientCredentialScope, ∀ c ∈ (scopeText scope).toList, 33≤c.toNat ∧ c.toNat≤126 := by
    intro scope
    cases scope <;> exact forall_chars (by decide)
  exact hall scope c hin

theorem scopes_ne (h : scopes≠[]) : ",".intercalate (scopes.map scopeText) ≠ "" := by
  intro hnil
  cases scopes with
  | nil => exact h rfl
  | cons scope rest =>
    have hlis:=congrArg String.toList hnil
    rw [String.toList_intercalate,map_cons,map_cons] at hlis
    cases rest with
    | nil => cases scope <;> exact absurd hlis (by decide)
    | cons other rest =>
      rw [map_cons,map_cons,intercalate_cons_cons] at hlis
      cases scope <;> exact absurd (congrArg List.head? hlis) (by simp [scopeText])

end

section
variable {forwarding : Forwarding} {request : IncomingMessage} {previewProxy : Bool} {received : List (String × String)}

/-- A header of the gateway arrives once, and as the only one of its name. -/
theorem incomingHeader_of_delivered (h : Delivered (forwarding.proxyHeaders request previewProxy false) received)
    (header : String × String) (hmem : header ∈ forwarding.clientSettings) (hlow : lowerCase header.1=header.1)
    (htig : Cookies.Tight Number.isSpace header.2.toList) (hne : header.2 ≠ "") :
    incomingHeader received header.1=some header.2 := by
  have hset : header ∈ forwarding.proxySettings request previewProxy false++forwarding.nodeHeaders false :=
    mem_append_left _ (mem_append_right _ (mem_append_right _ hmem))
  have honc:=(unforged_proxy forwarding request previewProxy false).once header hset
  rw [hlow] at honc
  have hfil : Delivered ((forwarding.proxyHeaders request previewProxy false).filter fun other => lowerCase other.1 == header.1)
      (received.filter fun other => lowerCase other.1 == header.1) := by
    refine rel_filter ?_ h
    intro sent arrived hsam
    simp only [beq_iff_eq,hsam.1,lowerCase_lowerCase]
  rw [honc] at hfil
  obtain ⟨arrived,rest,hval,hres,hrec⟩ := List.forall₂_cons_left_iff.1 hfil
  obtain rfl := List.forall₂_nil_left_iff.1 hres
  unfold incomingHeader rawValues
  rw [hrec,map_singleton,receivedValue_eq htig hne hval.2]
  simp

end

theorem trimText_tight (value : String) : Cookies.Tight Number.isSpace (trimText value).toList := by
  obtain ⟨a,b,-,-,-,htig⟩ := Cookies.trimBy_spec Number.isSpace value.toList
  unfold trimText
  rw [String.toList_ofList]
  exact htig

theorem labelWords_ne_nil {label : String} (htig : Cookies.Tight Number.isSpace label.toList) (hne : label ≠ "")
    (hleg : LegalHeaderValue label) : labelWords label≠[] := by
  unfold labelWords
  cases hcs : label.toList with
  | nil => exact absurd (String.toList_eq_nil_iff.1 hcs) hne
  | cons c cs =>
    have hspa : Number.isSpace c=false := htig.1 c (by rw [hcs]; rfl)
    have hleg' : headerValueChar c=true := hleg c (by rw [hcs]; exact mem_cons_self)
    have hcon : controlCharacter c=false := by
      cases hc : controlCharacter c with
      | false => rfl
      | true =>
        simp only [controlCharacter,Bool.or_eq_true,decide_eq_true_eq] at hc
        simp only [headerValueChar,Bool.or_eq_true,Bool.and_eq_true,decide_eq_true_eq] at hleg'
        rcases hleg' with (rfl | hlow) | hhigh
        · exact absurd hspa (by decide)
        · omega
        · omega
    exact wordsBy_ne_nil (by simp [labelSeparator,hcon,hspa])

/-- An accepted credential survives if and only if each character of its label can stand in a header. -/
theorem identity_survives_iff (z : Formats) (input client : StoredClientCredential)
    (haccepted : (runtimeClientCredentialSchema z).parse input=some client) (forwarding : Forwarding)
    (hclient : forwarding.client=some client.toRuntimeClientCredential) (htext : forwarding.scopeText=scopeText)
    (request : IncomingMessage) (previewProxy : Bool) :
    Survives forwarding request previewProxy client.toRuntimeClientCredential ↔
      ∀ c ∈ client.label.toList, c = '\t' ∨ (32≤c.toNat ∧ c.toNat≤126) ∨ (128≤c.toNat ∧ c.toNat≤255) := by
  obtain ⟨hval,hsom⟩ := Option.ite_none_right_eq_some.1 haccepted
  have hpad:=Option.some.inj hsom
  have hlab : client.label=trimText input.label := by rw [← hpad]
  rw [hpad] at hval
  simp only [runtimeClientCredentialValid,lengthWithin,sizeWithin,allUnique,Bool.and_eq_true,decide_eq_true_eq] at hval
  obtain ⟨⟨⟨⟨⟨hid,hmin,hmax⟩,hany,-⟩,hnod⟩,-⟩,-⟩ := hval
  have htig : Cookies.Tight Number.isSpace client.label.toList := by
    rw [hlab]
    exact trimText_tight input.label
  have hne : client.label ≠ "" := by
    intro hnil
    rw [hnil] at hmin
    exact absurd hmin (by decide)
  have hsco : client.scopes≠[] := by
    intro hnil
    rw [hnil] at hany
    exact absurd hany (by decide)
  obtain ⟨hidNe,hidPrinted⟩ := clientCredentialId_printed hid
  have hset : forwarding.clientSettings =
      [("x-qubicl-client-id",client.id),("x-qubicl-client-label",client.label),
        ("x-qubicl-client-scopes",",".intercalate (client.scopes.map scopeText))] := by
    unfold Forwarding.clientSettings
    rw [hclient,htext]
  have hcha : (∀ c ∈ client.label.toList, c = '\t' ∨ (32≤c.toNat ∧ c.toNat≤126) ∨ (128≤c.toNat ∧ c.toNat≤255)) ↔
      LegalHeaderValue client.label := by
    simp only [LegalHeaderValue,headerValueChar,Bool.or_eq_true,Bool.and_eq_true,decide_eq_true_eq,or_assoc]
  have hnam : lowerCase "x-qubicl-client-id" = "x-qubicl-client-id" ∧
      lowerCase "x-qubicl-client-label" = "x-qubicl-client-label" ∧
      lowerCase "x-qubicl-client-scopes" = "x-qubicl-client-scopes" := by decide +kernel
  rw [hcha]
  constructor
  · intro h
    exact h.legal ("x-qubicl-client-label",client.label) (by rw [hset]; simp)
  · intro hleg
    refine ⟨?_,?_⟩
    · intro header hmem
      rw [hset] at hmem
      simp only [mem_cons,not_mem_nil,or_false] at hmem
      rcases hmem with rfl | rfl | rfl
      · exact fun c hc => (printed (hidPrinted c hc).1 (hidPrinted c hc).2).1
      · exact hleg
      · exact fun c hc => (printed (scopes_printed c hc).1 (scopes_printed c hc).2).1
    · intro received hdel
      have hidHeader:=incomingHeader_of_delivered hdel ("x-qubicl-client-id",client.id)
        (by rw [hset]; simp) hnam.1
        (tight_of_plain fun c hc => (printed (hidPrinted c hc).1 (hidPrinted c hc).2).2) hidNe
      have hlabelHeader:=incomingHeader_of_delivered hdel ("x-qubicl-client-label",client.label)
        (by rw [hset]; simp) hnam.2.1 htig hne
      have hscopesHeader:=incomingHeader_of_delivered hdel
        ("x-qubicl-client-scopes",",".intercalate (client.scopes.map scopeText))
        (by rw [hset]; simp) hnam.2.2
        (tight_of_plain fun c hc => (printed (scopes_printed c hc).1 (scopes_printed c hc).2).2) (scopes_ne hsco)
      obtain ⟨context,hpar,hsameId,hsameLabel,hsameScopes⟩ :=
        parse_identity hid hidNe hne hmax hnod hsco (scopes_ne hsco)
      have hwor:=labelWords_safeLabel (labelWords_ne_nil htig hne hleg)
      refine ⟨context,?_,hsameId,hsameScopes,by rw [hsameLabel,hwor]⟩
      unfold clientCredentialFromNodeHeaders
      rw [hidHeader,hlabelHeader,hscopesHeader,hpar]

def bareRequest : IncomingMessage where
  method := "POST"
  httpVersion := "1.1"
  rawHeaders := []
  headers := []
  named := by simp
  clean := by simp
  merged := by simp
  filled := by simp
  connection := rfl

def labelled (label : String) : StoredClientCredential where
  id := "monitor"
  label := label
  tokenHash := exampleDigest
  scopes := [.files,.observe]
  createdAt := exampleDate

def forwardingOf (client : StoredClientCredential) : Forwarding where
  gatewayEpoch := "epoch"
  route :=
    { host := "computer", viewHost := none, viewPort := none, controlViewPort := none, internalKey := "key",
      viewerAuthentication := none, capabilities := [], tokenHash := "", clientCredentials := [], id := exampleId,
      controlPort := 7300 }
  surface := .localhost
  client := some client.toRuntimeClientCredential
  scopeText := scopeText
  serviceKey := id
  hostHeader host port := s!"{host}:{port}"

theorem identity_survives_monitor :
    Survives (forwardingOf (labelled "Monitor")) bareRequest false (labelled "Monitor").toRuntimeClientCredential ↔
      ∀ c ∈ (labelled "Monitor").label.toList,
        c = '\t' ∨ (32≤c.toNat ∧ c.toNat≤126) ∨ (128≤c.toNat ∧ c.toNat≤255) :=
  identity_survives_iff exampleFormats (labelled " Monitor ") (labelled "Monitor") (by decide)
    (forwardingOf (labelled "Monitor")) rfl rfl bareRequest false

/-- A Japanese label is accepted, and the request that carries it cannot be made. -/
theorem japanese_label_lost :
    ¬∀ (z : Formats) (input client : StoredClientCredential), (runtimeClientCredentialSchema z).parse input=some client →
      ∀ forwarding : Forwarding, forwarding.client=some client.toRuntimeClientCredential →
        forwarding.scopeText=scopeText →
        ∀ request previewProxy, Survives forwarding request previewProxy client.toRuntimeClientCredential := by
  intro hall
  have hacc : (runtimeClientCredentialSchema exampleFormats).parse (labelled "日本")=some (labelled "日本") := by
    decide
  have hsur:=hall exampleFormats _ _ hacc (forwardingOf (labelled "日本")) rfl rfl bareRequest false
  have hleg:=hsur.legal ("x-qubicl-client-label","日本") (by decide)
  exact absurd (hleg '日' (by decide)) (by decide)

end Qubicl.Gateway
