import Qubicl.Control.Egress.Policy
import Qubicl.Foundation.Checked
import Qubicl.Foundation.UrlSegments

/-!
# Targets of brokered requests (packages/control/src/egress.ts:290-308)
-/

namespace Qubicl.Control.Egress
open Foundation Foundation.WebUrl

/-- `new URL(baseUrl)` -/
structure BaseUrl where
  protocol : String
  username : String
  password : String
  search : String
  hash : String
  origin : String
  deriving DecidableEq, Repr

structure TargetUrl extends Reference where
  origin : String
  hash : List Char
  deriving DecidableEq, Repr

/-- The URL parser, for a base and for what is no path of one. -/
structure UrlParser where
  parse : String → Option BaseUrl
  elsewhere : List Char → BaseUrl → Option TargetUrl

def scopeDenied (message : String) : QubiclError := ⟨"credential_scope_denied",message,403⟩

/- `new URL` throws. -/
def malformedTarget : QubiclError := ⟨"ERR_INVALID_URL","Invalid URL",500⟩

def required {α : Type} (o : Option α) (error : QubiclError) : Except QubiclError α := o.elim (.error error) .ok

theorem required_ok {α : Type} {o : Option α} {error : QubiclError} {a : α} : required o error=.ok a ↔ o=some a := by
  unfold required
  cases o with
  | none => simp
  | some b => simp

section
variable (url : UrlParser)

/-- `new URL(target, base)`; a path with a fragment is not asked for. -/
def resolve (target : List Char) (base : BaseUrl) : Option TargetUrl :=
  match parseTarget target with
  | some reference => some ⟨reference,base.origin,[]⟩
  | none => url.elsewhere target base

def checkPath (credentialId label : String) (value : List Char) : Except QubiclError Unit := do
  let rawPath:=value.takeWhile (· ≠ '?')
  let controls:=rawPath.any fun c => decide (c.toNat<32) || c.toNat == 127
  rejectIf (rawPath.head? ≠ some '/' ∨ '\\' ∈ rawPath ∨ '#' ∈ value ∨ controls=true ∨ ['/','/'] <:+: rawPath ∨
      hasEscape rawPath=true)
    (scopeDenied s!"Credential {credentialId} {label} is ambiguous or non-canonical.")
  rejectIf ((rawPath.splitOn '/').any (fun segment => decide (segment=['.'] ∨ segment=['.','.']))=true)
    (scopeDenied s!"Credential {credentialId} {label} contains a dot segment.")

def pathWithinPrefix (path configured : List Char) : Bool :=
  let normalized:=if configured.getLast? = some '/' then configured else configured++['/']
  decide (path=configured) || normalized.isPrefixOf path

def canonicalBrokerTarget (baseUrl requestedPath configuredPrefix credentialId : String) : Except QubiclError TargetUrl := do
  let base ← required (url.parse baseUrl) (scopeDenied s!"Credential {credentialId} has an invalid base URL.")
  rejectIf (base.protocol≠"https:" ∨ base.username≠"" ∨ base.password≠"" ∨ base.search≠"" ∨ base.hash≠"")
    (scopeDenied s!"Credential {credentialId} must use a credential-free HTTPS base URL.")
  checkPath credentialId "path" requestedPath.toList
  checkPath credentialId "path prefix" configuredPrefix.toList
  let target ← required (resolve url requestedPath.toList base) malformedTarget
  let configured ← required (resolve url configuredPrefix.toList base) malformedTarget
  rejectIf (target.origin≠base.origin ∨ configured.origin≠base.origin ∨ configured.search≠[] ∨ configured.hash≠[])
    (scopeDenied "Broker requests cannot change origin.")
  rejectIf (pathWithinPrefix target.pathname configured.pathname=false)
    (scopeDenied s!"Credential {credentialId} does not allow this path.")
  .ok target

/-- The segments behind the first slash of a path. -/
def segmentsOf (pathname : List Char) : List (List Char) := (pathname.splitOn '/').tail

section
variable {url} {credentialId label : String} {value : List Char} {target : TargetUrl}

/-- What passes the check is a path of the base, whose segments are kept and of which only the last can be empty. -/
theorem resolve_checked (url : UrlParser) (base : BaseUrl) (h : checkPath credentialId label value=.ok ()) :
    ∃ segments search, resolve url value base=some ⟨⟨segments.flatMap ('/' :: ·),search⟩,base.origin,[]⟩ ∧ segments≠[] ∧
      (∀ segment ∈ segments, Kept segment) ∧ ∀ segment ∈ segments.dropLast, segment≠[] := by
  unfold checkPath at h
  simp only [bind_ok,rejectIf_ok] at h
  obtain ⟨-,hcle,-⟩ := h
  simp only [not_or,not_not] at hcle
  obtain ⟨hsla,hbac,hhas,hcon,hdou,hesc⟩ := hcle
  have hcha : ∀ c ∈ value.takeWhile (· ≠ '?'), 0x20≤c.toNat ∧ c ≠ '\\' := by
    intro c hc
    refine ⟨?_,fun heq => hbac (heq ▸ hc)⟩
    by_contra hlow
    refine hcon (List.any_eq_true.2 ⟨c,hc,?_⟩)
    simp only [Bool.or_eq_true,decide_eq_true_eq]
    omega
  obtain ⟨rest,search,hpre,hpar⟩ := parseTarget_path hsla hcha hhas hdou
  obtain ⟨after,haft⟩ := hpre
  have hcut : ¬ ['/','/'] <:+: '/' :: rest := fun hinf => hdou (haft ▸ hinf.trans ⟨[],after,rfl⟩)
  have hres : '\\' ∉ rest ∧ hasEscape rest=false := by
    rw [← haft] at hbac hesc
    refine ⟨fun hmem => hbac (by simp [hmem]),?_⟩
    have hfro:=hasEscape_append (Bool.of_not_eq_true hesc)
    have hspl : hasEscape (['/']++rest)=false := hfro
    exact hasEscape_suffix hspl
  refine ⟨walk [] (rest.splitOn '/'),search,?_,walk_ne_nil splitOn_ne_nil,?_,?_⟩
  · unfold resolve
    rw [hpar]
  · exact walk_kept (by simp) (splitOn_whole hres.1 hres.2)
  · exact walk_nonempty (by simp) (splitOn_nonempty hcut)

theorem segmentsOf_flatMap {segments : List (List Char)} (hne : segments≠[]) (h : ∀ segment ∈ segments, '/' ∉ segment) :
    segmentsOf (segments.flatMap ('/' :: ·))=segments := by
  have hfir : ∀ cs : List Char, ('/' :: cs).splitOn '/' = []::cs.splitOn '/' := by
    intro cs
    rw [List.splitOn_cons_eq_if_modifyHead,if_pos (by rfl)]
  unfold segmentsOf
  rw [flatMap_slash hne,hfir,List.splitOn_intercalate '/' h hne]
  rfl

theorem pathWithinPrefix_iff {path configured : List Char} : pathWithinPrefix path configured=true ↔ path=configured ∨
    ∃ rest, path=configured++rest ∧ (configured.getLast? = some '/' ∨ rest.head? = some '/') := by
  unfold pathWithinPrefix
  simp only [Bool.or_eq_true,decide_eq_true_eq,List.isPrefixOf_iff_prefix]
  refine or_congr Iff.rfl ?_
  by_cases hlas : configured.getLast? = some '/'
  · rw [if_pos hlas]
    constructor
    · intro hpre
      obtain ⟨rest,hres⟩ := hpre
      exact ⟨rest,hres.symm,Or.inl hlas⟩
    · intro hres
      obtain ⟨rest,hres,-⟩ := hres
      exact ⟨rest,hres.symm⟩
  · rw [if_neg hlas]
    constructor
    · intro hpre
      obtain ⟨rest,hres⟩ := hpre
      exact ⟨'/' :: rest,by simp [← hres],Or.inr rfl⟩
    · intro hres
      obtain ⟨rest,hres,hsla⟩ := hres
      cases rest with
      | nil => simp [hlas] at hsla
      | cons c rest =>
        have hc : c = '/' := by simpa [hlas] using hsla
        exact ⟨rest,by simp [hres,hc]⟩

/-- A target has the origin of its base, a path that no URL parser reads another way, and the configured path in front of it
up to a segment's end. -/
theorem broker_target_scoped {baseUrl requestedPath configuredPrefix : String}
    (h : canonicalBrokerTarget url baseUrl requestedPath configuredPrefix credentialId=.ok target) :
    ∃ base configured, url.parse baseUrl=some base ∧ resolve url configuredPrefix.toList base=some configured ∧
      target.origin=base.origin ∧
      (∀ segment ∈ segmentsOf target.pathname, Kept segment) ∧
      (∀ segment ∈ (segmentsOf target.pathname).dropLast, segment≠[]) ∧
      (target.pathname=configured.pathname ∨ ∃ rest, target.pathname=configured.pathname++rest ∧
        (configured.pathname.getLast? = some '/' ∨ rest.head? = some '/')) := by
  unfold canonicalBrokerTarget at h
  simp only [bind_ok,rejectIf_ok,required_ok] at h
  obtain ⟨base,hbas,_,-,_,hpat,_,-,_,htar,configured,hcon,_,hori,_,hwit,hres⟩ := h
  cases hres
  have hwit:=pathWithinPrefix_iff.1 (Bool.of_not_eq_false hwit)
  obtain ⟨segments,search,hree,hne,hkep,hnon⟩ := resolve_checked url base hpat
  rw [htar,Option.some.injEq] at hree
  have hses : segmentsOf target.pathname=segments := by
    rw [hree]
    exact segmentsOf_flatMap hne fun segment hseg => (hkep segment hseg).slash
  simp only [not_or,not_not] at hori
  rw [hses]
  exact ⟨base,configured,hbas,hcon,hori.1,hkep,hnon,hwit⟩

end

/-- A parser that has one base. -/
def exampleParser : UrlParser where
  parse _ := some ⟨"https:","","","","","https://api.example"⟩
  elsewhere _ _ := none

theorem broker_target_scoped_example :
    ∃ target : TargetUrl, canonicalBrokerTarget exampleParser "https://api.example" "/v1/users?page=2" "/v1" "api"=.ok target ∧
      target.origin="https://api.example" ∧ ∀ segment ∈ segmentsOf target.pathname, Kept segment := by
  have hrun : canonicalBrokerTarget exampleParser "https://api.example" "/v1/users?page=2" "/v1" "api" =
      .ok ⟨⟨"/v1/users".toList,"?page=2".toList⟩,"https://api.example",[]⟩ := by decide
  obtain ⟨base,configured,hbas,-,hori,hkep,-⟩ := broker_target_scoped hrun
  cases hbas
  exact ⟨_,hrun,hori,hkep⟩

/-- The last segment of the path of an origin is empty. -/
theorem broker_target_empty_segment : ¬ ∀ (url : UrlParser) (baseUrl requestedPath configuredPrefix credentialId : String)
    (target : TargetUrl), canonicalBrokerTarget url baseUrl requestedPath configuredPrefix credentialId=.ok target →
      ∀ segment ∈ segmentsOf target.pathname, segment≠[] := by
  intro h
  have hrun : canonicalBrokerTarget exampleParser "https://api.example" "/" "/" "api" =
      .ok ⟨⟨['/'],[]⟩,"https://api.example",[]⟩ := by decide
  exact h _ _ _ _ _ _ hrun [] (by decide) rfl

end

end Qubicl.Control.Egress
