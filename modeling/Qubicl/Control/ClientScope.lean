import Qubicl.Control.Lease.Manager
import Qubicl.Core.GatewayAccess
import Qubicl.Foundation.Words

/-!
# The client of a request (packages/control/src/client-scope.ts:13-31, 51-76)

The control service reads the credential from headers that the gateway sets, and checks all of it again.
-/

namespace Qubicl.Control
open Foundation Core Lease List

structure ClientCredentialContext where
  id : String
  label : String
  scopes : List ClientCredentialScope
  deriving DecidableEq, Repr

def CLIENT_CREDENTIAL_SCOPES : List ClientCredentialScope := [.observe,.files,.tasks,.interactive,.publish]

def scopeText : ClientCredentialScope → String
  | .observe => "observe"
  | .files => "files"
  | .tasks => "tasks"
  | .interactive => "interactive"
  | .publish => "publish"

def controlCharacter (c : Char) : Bool := c.toNat≤0x1f || c.toNat=0x7f

def safeLabel (value : String) : String :=
  let replaced:=value.toList.map fun c => if controlCharacter c then ' ' else c
  let normalized:=Number.trim (collapseFrom Number.isSpace ' ' false replaced)
  if normalized.isEmpty then "Unnamed client" else String.ofList normalized

def operatorContext : ClientCredentialContext where
  id := "operator-internal"
  label := "Qubicl operator"
  scopes := CLIENT_CREDENTIAL_SCOPES

def invalidContext : QubiclError where
  code := "client_context_invalid"
  message := "The trusted gateway supplied an invalid client credential context."
  status := 500

def invalidScopes : QubiclError where
  code := "client_context_invalid"
  message := "The trusted gateway supplied invalid client credential scopes."
  status := 500

/-- An absent header and an empty one are both false. -/
def parseClientCredential (id? label? rawScopes? : Option String) : Except QubiclError ClientCredentialContext :=
  let id:=id?.getD ""
  let label:=label?.getD ""
  let rawScopes:=rawScopes?.getD ""
  if id = "" ∧ label = "" ∧ rawScopes = "" then .ok operatorContext
  else if id = "" ∨ clientCredentialId id=false ∨ label = "" ∨ utf16Length label > 120 ∨ rawScopes = "" then
    .error invalidContext
  else
    let values:=(rawScopes.toList.splitOn ',').map String.ofList
    let scopes:=CLIENT_CREDENTIAL_SCOPES.filter fun scope => values.contains (scopeText scope)
    if scopes=[] ∨ scopes.length≠values.length ∨ values.dedup.length≠values.length then .error invalidScopes
    else .ok { id, label := safeLabel label, scopes }

/-- A character between the words of a label. -/
def labelSeparator (c : Char) : Bool := controlCharacter c || Number.isSpace c

def labelWords (label : String) : List (List Char) := wordsBy labelSeparator label.toList

theorem labelWords_safeLabel {label : String} (h : labelWords label≠[]) : labelWords (safeLabel label)=labelWords label := by
  have hspa : ∀ c, Number.isSpace c=true → labelSeparator c=true := by
    intro c hc
    simp [labelSeparator,hc]
  have hmar : labelSeparator ' ' = true := by decide
  have hmap : ∀ c, (if controlCharacter c then ' ' else c)=c ∨
      labelSeparator c=true ∧ labelSeparator (if controlCharacter c then ' ' else c)=true := by
    intro c
    cases hc : controlCharacter c with
    | true => exact Or.inr ⟨by simp [labelSeparator,hc],by simpa using hmar⟩
    | false => exact Or.inl (by simp)
  -- no step of the normalisation touches the words
  have hwor : wordsBy labelSeparator
      (Number.trim (collapseFrom Number.isSpace ' ' false
        (label.toList.map fun c => if controlCharacter c then ' ' else c)))=labelWords label := by
    have htri:=wordsBy_trimBy hspa
      (collapseFrom Number.isSpace ' ' false (label.toList.map fun c => if controlCharacter c then ' ' else c))
    have hcol : wordsBy labelSeparator
        (collapseFrom Number.isSpace ' ' false (label.toList.map fun c => if controlCharacter c then ' ' else c)) =
        wordsBy labelSeparator (label.toList.map fun c => if controlCharacter c then ' ' else c) :=
      (wordsBy_collapseFrom hspa hmar).1 []
    have hrep : wordsBy labelSeparator (label.toList.map fun c => if controlCharacter c then ' ' else c) =
        wordsBy labelSeparator label.toList := wordsBy_map hmap []
    exact htri.trans (hcol.trans hrep)
  unfold safeLabel
  simp only
  split
  next hemp =>
    rw [List.isEmpty_iff.1 hemp,wordsBy_nil] at hwor
    exact absurd hwor.symm h
  next =>
    show wordsBy labelSeparator (String.ofList _).toList=_
    rw [String.toList_ofList]
    exact hwor

theorem scopeText_injective : Function.Injective scopeText := by
  intro a b h
  cases a <;> cases b <;> first | rfl | exact absurd h (by decide)

variable {scopes : List ClientCredentialScope}

theorem parse_scopes (hnod : scopes.Nodup) (hne : scopes≠[]) :
    let values:=((",".intercalate (scopes.map scopeText)).toList.splitOn ',').map String.ofList
    let found:=CLIENT_CREDENTIAL_SCOPES.filter fun scope => values.contains (scopeText scope)
    (∀ scope, scope ∈ found ↔ scope ∈ scopes) ∧ ¬(found=[] ∨ found.length≠values.length ∨ values.dedup.length≠values.length) := by
  have hjoi : ((",".intercalate (scopes.map scopeText)).toList.splitOn ',').map String.ofList=scopes.map scopeText := by
    have hcom : ∀ text ∈ (scopes.map scopeText).map String.toList, ',' ∉ text := by
      intro text htex
      obtain ⟨_,hmem,rfl⟩ := mem_map.1 htex
      obtain ⟨scope,-,rfl⟩ := mem_map.1 hmem
      cases scope <;> decide
    rw [String.toList_intercalate]
    have hspl:=splitOn_intercalate ',' hcom (by simpa using hne)
    have hsep : (",".toList : List Char)=[','] := rfl
    rw [hsep,hspl,map_map]
    conv => rhs; rw [← map_id (scopes.map scopeText)]
    exact map_congr_left fun text _ => String.ofList_toList
  intro values found
  have hval : values=scopes.map scopeText := hjoi
  have hfou : ∀ scope, scope ∈ found ↔ scope ∈ scopes := by
    intro scope
    have hall : scope ∈ CLIENT_CREDENTIAL_SCOPES := by cases scope <;> decide
    simp only [found,mem_filter,hall,true_and,hval,contains_iff_mem]
    exact mem_map_of_injective scopeText_injective
  have hfoundNodup : found.Nodup := List.Nodup.filter _ (by decide)
  have hper : found.Perm scopes := (perm_ext_iff_of_nodup hfoundNodup hnod).2 hfou
  have hvaluesNodup : values.Nodup := by
    rw [hval]
    exact hnod.map scopeText_injective
  refine ⟨hfou,?_⟩
  rintro (hnil | hlength | hset)
  · rw [hnil] at hper
    exact hne (nil_perm.1 hper)
  · rw [hval,length_map] at hlength
    exact hlength hper.length_eq
  · exact hset (by rw [hvaluesNodup.dedup])

theorem parse_identity {id label : String} (hid : clientCredentialId id=true) (hidNe : id ≠ "") (hlab : label ≠ "")
    (hmax : utf16Length label≤120) (hnod : scopes.Nodup) (hne : scopes≠[])
    (hraw : ",".intercalate (scopes.map scopeText) ≠ "") :
    ∃ context, parseClientCredential (some id) (some label) (some (",".intercalate (scopes.map scopeText)))=.ok context ∧
      context.id=id ∧ context.label=safeLabel label ∧ ∀ scope, scope ∈ context.scopes ↔ scope ∈ scopes := by
  obtain ⟨hsam,hfou⟩ := parse_scopes hnod hne
  have hnon : ¬(id = "" ∧ label = "" ∧ ",".intercalate (scopes.map scopeText) = "") := fun hall => hidNe hall.1
  have hfit : ¬(id = "" ∨ clientCredentialId id=false ∨ label = "" ∨ utf16Length label > 120 ∨
      ",".intercalate (scopes.map scopeText) = "") := by
    rintro (hbad | hbad | hbad | hbad | hbad)
    · exact hidNe hbad
    · rw [hid] at hbad
      cases hbad
    · exact hlab hbad
    · exact absurd hmax (Nat.not_le.2 hbad)
    · exact hraw hbad
  unfold parseClientCredential
  simp only [Option.getD_some]
  rw [if_neg hnon,if_neg hfit,if_neg hfou]
  exact ⟨_,rfl,rfl,rfl,hsam⟩

end Qubicl.Control
