import Qubicl.Cli.Cleanup.Review

/-!
# What a review digest stands for

`stableJson` writes a value whose fields were sorted, so that the text gives the sorted value back.
-/

namespace Qubicl.Cli.Cleanup
open Foundation List

mutual

def canonical : Json → Json
  | .null => .null
  | .boolean value => .boolean value
  | .number value => .number value
  | .string text => .string text
  | .array items => .array (canonicalItems items)
  | .object fields => .object (sorted (comparing Prod.fst compareText) (canonicalFields fields))

def canonicalItems : List Json → List Json
  | [] => []
  | item::items => canonical item::canonicalItems items

def canonicalFields : List (String × Json) → List (String × Json)
  | [] => []
  | (key,value)::fields => (key,canonical value)::canonicalFields fields

end

theorem canonicalItems_eq (items : List Json) : canonicalItems items=items.map canonical := by
  induction items with
  | nil => rfl
  | cons item items ih => rw [canonicalItems,ih,map_cons]

theorem canonicalFields_eq (fields : List (String × Json)) :
    canonicalFields fields=fields.map fun field => (field.1,canonical field.2) := by
  induction fields with
  | nil => rfl
  | cons field fields ih =>
    obtain ⟨key,value⟩ := field
    rw [canonicalFields,ih,map_cons]

theorem writeFields_eq (text : ℚ → List Char) (fields : List (String × Json)) :
    Json.writeFields text fields=fields.map fun field => Json.quoted field.1 ++ ':' :: field.2.write text := by
  induction fields with
  | nil => rfl
  | cons field fields ih =>
    obtain ⟨key,value⟩ := field
    rw [Json.writeFields,ih,map_cons]

/- Sorting by the keys goes through whatever is done to the values. -/
theorem sorted_map_value {α β : Type} (f : α → β) (fields : List (String × α)) :
    sorted (comparing Prod.fst compareText) (fields.map fun field => (field.1,f field.2)) =
      (sorted (comparing Prod.fst compareText) fields).map fun field => (field.1,f field.2) := by
  unfold sorted
  exact (map_insertionSort (fun a b : String × α => (comparing Prod.fst compareText a b).isLE=true)
    (fun a b : String × β => (comparing Prod.fst compareText a b).isLE=true) (fun field => (field.1,f field.2)) fields
    fun _ _ _ _ => Iff.rfl).symm

mutual

theorem stableJson_eq : ∀ value : Json, stableJson value=(canonical value).write numberText
  | .null => rfl
  | .boolean true => rfl
  | .boolean false => rfl
  | .number _ => rfl
  | .string _ => rfl
  | .array items => by
    rw [stableJson,canonical,Json.write,stableItems_eq items]
  | .object fields => by
    rw [stableJson,canonical,Json.write,writeFields_eq,stableFields_eq fields,sorted_map_value,map_map]
    rfl

theorem stableItems_eq : ∀ items : List Json, stableItems items=Json.writeItems numberText (canonicalItems items)
  | [] => rfl
  | item::items => by
    rw [stableItems,canonicalItems,Json.writeItems,stableJson_eq item,stableItems_eq items]

theorem stableFields_eq : ∀ fields : List (String × Json),
    stableFields fields=(canonicalFields fields).map fun field => (field.1,field.2.write numberText)
  | [] => rfl
  | (key,value)::fields => by
    rw [stableFields,canonicalFields,map_cons,stableJson_eq value,stableFields_eq fields]

end

theorem delimits_one : Json.Delimits numberText (· = 1) where
  injective q r hq hr _ := by rw [hq,hr]
  ne_nil q hq := by
    rw [hq]
    decide +kernel
  chars q hq := by
    rw [hq]
    refine fun c hc => ?_
    have hone : numberText 1=['1'] := by decide +kernel
    rw [hone,mem_singleton] at hc
    subst hc
    decide

section
variable {P : ℚ → Prop}

mutual

theorem over_canonical : ∀ value : Json, value.Over P → (canonical value).Over P
  | .null, h => h
  | .boolean _, h => h
  | .number _, h => h
  | .string _, h => h
  | .array items, h => by
    rw [canonical,Json.Over]
    exact overItems_canonical items h
  | .object fields, h => by
    rw [canonical,Json.Over,Json.overFields_iff]
    intro field hfie
    exact Json.overFields_iff.1 (overFields_canonical fields h) field (mem_sorted.1 hfie)

theorem overItems_canonical : ∀ items : List Json, Json.OverItems P items → Json.OverItems P (canonicalItems items)
  | [], h => h
  | item::items, h => ⟨over_canonical item h.1,overItems_canonical items h.2⟩

theorem overFields_canonical : ∀ fields : List (String × Json), Json.OverFields P fields → Json.OverFields P (canonicalFields fields)
  | [], h => h
  | (_,value)::fields, h => ⟨over_canonical value h.1,overFields_canonical fields h.2⟩

end

end

theorem stableJson_inj {v w : Json} (hv : v.Over (· = 1)) (hw : w.Over (· = 1)) (h : stableJson v=stableJson w) :
    canonical v=canonical w := by
  have hclo : Json.Closes [] := by
    intro c hc
    cases hc
  rw [stableJson_eq,stableJson_eq] at h
  exact (Json.write_inj delimits_one _ _ (over_canonical v hv) (over_canonical w hw) [] [] hclo hclo
    (by rw [h])).1

theorem canonical_field {fields fields' : List (String × Json)} (h : canonical (.object fields)=canonical (.object fields'))
    (hnod : (fields'.map Prod.fst).Nodup) (key : String) {v w : Json} (hv : (key,v) ∈ fields) (hw : (key,w) ∈ fields') :
    canonical v=canonical w := by
  rw [canonical,canonical] at h
  have hsor:=Json.object.inj h
  have hmem : (key,canonical v) ∈ canonicalFields fields' := by
    have hwri : (key,canonical v) ∈ sorted (comparing Prod.fst compareText) (canonicalFields fields) := by
      rw [mem_sorted,canonicalFields_eq]
      exact mem_map.2 ⟨(key,v),hv,rfl⟩
    rw [hsor] at hwri
    exact mem_sorted.1 hwri
  rw [canonicalFields_eq] at hmem
  obtain ⟨⟨key',v'⟩,hfie,heq⟩ := mem_map.1 hmem
  obtain ⟨rfl,hval⟩ := Prod.mk.inj heq
  have hsam : (key',v')=(key',w) := inj_on_of_nodup_map hnod hfie hw rfl
  rw [← hval,(Prod.mk.inj hsam).2]

theorem reason_text_injective {a b : CleanupPreservationReason} (h : a.text=b.text) : a=b := by
  cases a <;> cases b <;> first | rfl | exact absurd h (by decide)

theorem canonical_string {a b : String} (h : canonical (.string a)=canonical (.string b)) : a=b :=
  Json.string.inj h

theorem canonical_boolean {a b : Bool} (h : canonical (.boolean a)=canonical (.boolean b)) : a=b :=
  Json.boolean.inj h

theorem candidateJson_inj {a b : CleanupCandidate} (h : canonical (candidateJson a)=canonical (candidateJson b)) : a=b := by
  have hkin : a.kind.text=b.kind.text := canonical_string (canonical_field h (by simp) "kind" (by simp) (by simp))
  have hid : a.id=b.id := canonical_string (canonical_field h (by simp) "id" (by simp) (by simp))
  have hnam : a.name=b.name := canonical_string (canonical_field h (by simp) "name" (by simp) (by simp))
  have hdig : a.validationDigest=b.validationDigest :=
    canonical_string (canonical_field h (by simp) "validationDigest" (by simp) (by simp))
  obtain ⟨kind,id,name,validationDigest⟩ := a
  obtain rfl : kind=b.kind := kind_text_injective hkin
  simp only at hid hnam hdig
  rw [hid,hnam,hdig]

theorem preservedJson_inj {a b : PreservedCleanupItem} (h : canonical (preservedJson a)=canonical (preservedJson b)) :
    a=b := by
  have hkin : a.kind.text=b.kind.text := canonical_string (canonical_field h (by simp) "kind" (by simp) (by simp))
  have hid : a.id=b.id := canonical_string (canonical_field h (by simp) "id" (by simp) (by simp))
  have hnam : a.name=b.name := canonical_string (canonical_field h (by simp) "name" (by simp) (by simp))
  have hrea : a.reason.text=b.reason.text :=
    canonical_string (canonical_field h (by simp) "reason" (by simp) (by simp))
  have hdet : a.detail=b.detail := canonical_string (canonical_field h (by simp) "detail" (by simp) (by simp))
  obtain ⟨kind,id,name,reason,detail⟩ := a
  obtain rfl : kind=b.kind := kind_text_injective hkin
  obtain rfl : reason=b.reason := reason_text_injective hrea
  simp only at hid hnam hdet
  rw [hid,hnam,hdet]

theorem canonical_array_inj {α : Type} {f : α → Json} (hf : ∀ a b, canonical (f a)=canonical (f b) → a=b) {l l' : List α}
    (h : canonical (.array (l.map f))=canonical (.array (l'.map f))) : l=l' := by
  rw [canonical,canonical,canonicalItems_eq,canonicalItems_eq,map_map,map_map] at h
  exact map_injective_iff.2 (fun a b => hf a b) (Json.array.inj h)

theorem over_digestInput (selection : CleanupSelection) (candidates : List CleanupCandidate)
    (preserved : List PreservedCleanupItem) : (digestInput selection candidates preserved).Over (· = 1) := by
  have hcan : Json.OverItems (· = 1) (candidates.map candidateJson) := by
    rw [Json.overItems_iff]
    intro item hite
    obtain ⟨c,-,rfl⟩ := mem_map.1 hite
    simp [candidateJson,Json.Over,Json.OverFields]
  have hpre : Json.OverItems (· = 1) (preserved.map preservedJson) := by
    rw [Json.overItems_iff]
    intro item hite
    obtain ⟨p,-,rfl⟩ := mem_map.1 hite
    simp [preservedJson,Json.Over,Json.OverFields]
  simp [digestInput,Json.Over,Json.OverFields,hcan,hpre]

theorem digestInput_inj {selection selection' : CleanupSelection} {candidates candidates' : List CleanupCandidate}
    {preserved preserved' : List PreservedCleanupItem}
    (h : stableJson (digestInput selection candidates preserved)=stableJson (digestInput selection' candidates' preserved')) :
    selection=selection' ∧ candidates=candidates' ∧ preserved=preserved' := by
  have hcan:=stableJson_inj (over_digestInput _ _ _) (over_digestInput _ _ _) h
  unfold digestInput at hcan
  refine ⟨?_,?_,?_⟩
  · have hsel:=canonical_field hcan (by simp) "selection" (by simp; rfl) (by simp; rfl)
    have horp : selection.orphans=selection'.orphans :=
      canonical_boolean (canonical_field hsel (by simp) "orphans" (by simp) (by simp))
    have hima : selection.images=selection'.images :=
      canonical_boolean (canonical_field hsel (by simp) "images" (by simp) (by simp))
    have hrec : selection.records=selection'.records :=
      canonical_boolean (canonical_field hsel (by simp) "records" (by simp) (by simp))
    obtain ⟨orphans,images,records⟩ := selection
    simp only at horp hima hrec
    rw [horp,hima,hrec]
  · exact canonical_array_inj (fun _ _ => candidateJson_inj)
      (canonical_field hcan (by simp) "candidates" (by simp) (by simp))
  · exact canonical_array_inj (fun _ _ => preservedJson_inj)
      (canonical_field hcan (by simp) "preserved" (by simp) (by simp))

end Qubicl.Cli.Cleanup
