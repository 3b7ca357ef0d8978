import Mathlib.Data.List.TakeWhile
import Qubicl.Skills.Xlsx.Rename

/-!
# What a renaming does to an operand

The callback reads the qualifier at the head of an operand and nothing behind it. So an operand is renamed as it should be, and
restored by the opposite renaming, exactly where nothing behind its head names the sheet.
-/

namespace Qubicl.Skills.Xlsx
open Foundation List

variable {names names' : SheetNames} {qualifier : Qualifier} {R : SheetName → SheetName → Prop} {name : SheetName}
  {operand : Operand}

theorem Qualifier.named_of_sheets (h : qualifier.sheets=some names) :
    (∀ content valid, qualifier≠.externalUnquoted content valid) ∧ qualifierName qualifier.text=names.text := by
  cases qualifier with
  | quoted other =>
    cases h
    exact ⟨fun _ _ h => (by cases h),qualifierName_quoted _⟩
  | unquoted other plain =>
    cases h
    exact ⟨fun _ _ h => (by cases h),qualifierName_unquoted (plain_chars plain).2⟩
  | externalQuoted content external valid => cases h
  | externalUnquoted content valid => cases h

theorem SheetNames.text_injective (h : names.text=names'.text) : names=names' := by
  have hcha : Function.Injective SheetName.chars := by
    intro name name' hnam
    cases name
    cases name'
    cases hnam
    rfl
  have hlis : names.list=names'.list := by
    have hspl:=congrArg (List.splitOn ':') h
    rw [splitOn_text,splitOn_text] at hspl
    exact map_injective_iff.2 hcha hspl
  obtain ⟨first,last⟩ := names
  obtain ⟨first',last'⟩ := names'
  obtain ⟨hfir,hlas⟩ := List.cons.inj hlis
  cases hfir
  cases last with
  | none =>
    cases last' with
    | none => rfl
    | some last' => cases hlas
  | some last =>
    cases last' with
    | none => cases hlas
    | some last' =>
      cases hlas
      rfl

/-- Two qualified references with one text have the same names before the same rest. -/
theorem qualified_inj {qualifier' : Qualifier} (h : qualifier.sheets=some names) (h' : qualifier'.sheets=some names')
    {rest rest' : Text} (hres : '\n' ∉ rest) (hres' : '\n' ∉ rest')
    (htex : qualifier.text ++ '!' :: rest=qualifier'.text ++ '!' :: rest') : names=names' ∧ rest=rest' := by
  have hmat:=qualifiedMatch_text (Qualifier.named_of_sheets h).1 hres
  rw [htex,qualifiedMatch_text (Qualifier.named_of_sheets h').1 hres'] at hmat
  obtain ⟨hqua,heq⟩ := Prod.mk.inj (Option.some.inj hmat)
  refine ⟨SheetNames.text_injective ?_,heq.symm⟩
  rw [← (Qualifier.named_of_sheets h).2,← (Qualifier.named_of_sheets h').2,hqua]

theorem Part.text_some (qualifier : Qualifier) (coordinate : Coordinate) (rest : Text) :
    Part.text ⟨some qualifier,coordinate⟩++rest=qualifier.text ++ '!' :: (coordinate.chars++rest) := by
  show (qualifier.text++['!']++coordinate.chars)++rest=_
  simp only [append_assoc,cons_append,nil_append]

theorem coordinate_not_newline (coordinate : Coordinate) (parts : List Part) : '\n' ∉ coordinate.chars++tailText parts := by
  intro hmem
  rcases mem_append.1 hmem with hin | hin
  · exact coordinate.valid hin
  · exact not_newline_tail parts hin

theorem RelatedPart.same {R : SheetName → SheetName → Prop} {part part' : Part} (h : RelatedPart R part part')
    {parts parts' : List Part} (htex : part.text++tailText parts=part'.text++tailText parts') :
    tailText parts=tailText parts' ∧ ∀ name ∈ part.names, R name name := by
  cases h with
  | unqualified coordinate => exact ⟨append_cancel_left htex,fun name hnae => by cases hnae⟩
  | external qualifier coordinate hext =>
    refine ⟨append_cancel_left htex,fun name hnae => ?_⟩
    have hnon : Part.names ⟨some qualifier,coordinate⟩=[] := by
      show qualifier.sheets.elim [] SheetNames.list=[]
      rw [hext]
      rfl
    rw [hnon] at hnae
    cases hnae
  | @named qualifier qualifier' names names' coordinate hnam hnam' hrel =>
    rw [Part.text_some,Part.text_some] at htex
    obtain ⟨rfl,hres⟩ := qualified_inj hnam hnam' (coordinate_not_newline _ _) (coordinate_not_newline _ _) htex
    refine ⟨append_cancel_left hres,fun name hnae => ?_⟩
    have hlis : Part.names ⟨some qualifier,coordinate⟩=names.list := by
      show qualifier.sheets.elim [] SheetNames.list=_
      rw [hnam]
      rfl
    rw [hlis] at hnae
    obtain ⟨i,hi,rfl⟩ := getElem_of_mem hnae
    exact List.Forall₂.get hrel hi hi

theorem related_tail_same {parts parts' : List Part} (h : List.Forall₂ (RelatedPart R) parts parts')
    (htex : tailText parts=tailText parts') : ∀ part ∈ parts, ∀ name ∈ part.names, R name name := by
  induction h with
  | nil => exact fun part hpar => by cases hpar
  | @cons part part' parts parts' hpar _ ih =>
    have hcon : ∀ part parts, tailText (part::parts) = ':' :: (part.text++tailText parts) := fun _ _ => rfl
    rw [hcon,hcon] at htex
    obtain ⟨htai,hnam⟩ := hpar.same (List.cons.inj htex).2
    intro other hoth
    rcases mem_cons.1 hoth with rfl | hin
    · exact hnam
    · exact ih htai other hin

theorem RelatedPart.refl {R : SheetName → SheetName → Prop} {part : Part} (h : ∀ name ∈ part.names, R name name) :
    RelatedPart R part part := by
  obtain ⟨qualifier,coordinate⟩ := part
  cases qualifier with
  | none => exact .unqualified coordinate
  | some qualifier =>
    cases hnam : qualifier.sheets with
    | none => exact .external qualifier coordinate hnam
    | some names =>
      refine .named coordinate hnam hnam ?_
      have hlis : Part.names ⟨some qualifier,coordinate⟩=names.list := by
        show qualifier.sheets.elim [] SheetNames.list=_
        rw [hnam]
        rfl
      rw [hlis] at h
      exact List.forall₂_same.2 h

section Token
variable {casefold quoteSheetname : Text → Text} (hquote : ∀ name, quoteSheetname name=quoted name) {old new : SheetName}

def SheetNames.map (f : SheetName → SheetName) (names : SheetNames) : SheetNames := ⟨f names.first,names.last.map f⟩

theorem SheetNames.list_map (f : SheetName → SheetName) (names : SheetNames) : (names.map f).list=names.list.map f := by
  obtain ⟨first,last⟩ := names
  cases last with
  | none => rfl
  | some last => rfl

theorem intercalate_text (names : SheetNames) : [':'].intercalate (names.list.map SheetName.chars)=names.text := by
  obtain ⟨first,last⟩ := names
  cases last with
  | none => simp [SheetNames.list,SheetNames.text]
  | some last => simp [SheetNames.list,SheetNames.text,List.intercalate]

theorem replaced_chars (casefold : Text → Text) (old new : SheetName) (names : SheetNames) :
    (names.list.map SheetName.chars).map (fun endpoint => if casefold endpoint=casefold old.chars then new.chars else endpoint) =
      (names.map (renamed casefold old new)).list.map SheetName.chars := by
  rw [SheetNames.list_map,map_map,map_map]
  refine map_congr_left fun name _ => ?_
  show (if _ then _ else _)=(renamed casefold old new name).chars
  unfold renamed
  split
  · rfl
  · rfl

include hquote in
theorem renameToken_named {operand : Operand} {qualifier : Qualifier} {names : SheetNames}
    (hhea : operand.head.qualifier=some qualifier) (hnam : qualifier.sheets=some names) :
    ∃ qualifier', qualifier'.sheets=some (names.map (renamed casefold old new)) ∧
      renameToken casefold quoteSheetname old.chars new.chars operand.text =
        Operand.text ⟨⟨some qualifier',operand.head.coordinate⟩,operand.tail⟩ ∧
      (names.map (renamed casefold old new)=names → qualifier'=qualifier) := by
  obtain ⟨⟨headQualifier,coordinate⟩,tail⟩ := operand
  cases hhea
  obtain ⟨hnot,hnae⟩ := Qualifier.named_of_sheets hnam
  have htex : Operand.text ⟨⟨some qualifier,coordinate⟩,tail⟩=qualifier.text ++ '!' :: (coordinate.chars++tailText tail) :=
    Part.text_some _ _ _
  have hbra : ¬ ('[' ∈ names.text ∨ ']' ∈ names.text) :=
    not_or.2 ⟨names.not_mem_text (by decide) (by decide),names.not_mem_text (by decide) (by decide)⟩
  have hmat : qualifiedMatch (Operand.text ⟨⟨some qualifier,coordinate⟩,tail⟩) =
      some (qualifier.text,coordinate.chars++tailText tail) := by
    rw [htex]
    exact qualifiedMatch_text hnot (coordinate_not_newline _ _)
  have hcal : renameToken casefold quoteSheetname old.chars new.chars (Operand.text ⟨⟨some qualifier,coordinate⟩,tail⟩) =
      if (names.map (renamed casefold old new)).list.map SheetName.chars=names.list.map SheetName.chars then
        Operand.text ⟨⟨some qualifier,coordinate⟩,tail⟩
      else quoted (names.map (renamed casefold old new)).text ++ '!' :: (coordinate.chars++tailText tail) := by
    unfold renameToken
    rw [hmat]
    dsimp only
    rw [hnae,if_neg hbra,splitOn_text,replaced_chars,hquote,intercalate_text]
  by_cases hsam : (names.map (renamed casefold old new)).list.map SheetName.chars=names.list.map SheetName.chars
  · have heq : names.map (renamed casefold old new)=names := by
      refine SheetNames.text_injective ?_
      rw [← intercalate_text,← intercalate_text,hsam]
    refine ⟨qualifier,hnam.trans (congrArg some heq.symm),?_,fun _ => rfl⟩
    rw [hcal,if_pos hsam]
  · refine ⟨.quoted (names.map (renamed casefold old new)),rfl,?_,fun heq => absurd (by rw [heq]) hsam⟩
    rw [hcal,if_neg hsam]
    exact (Part.text_some (.quoted _) coordinate (tailText tail)).symm

theorem renameToken_external (hhea : operand.head.qualifier=some qualifier) (hnam : qualifier.sheets=none)
    (old new : Text) : renameToken casefold quoteSheetname old new operand.text=operand.text := by
  obtain ⟨⟨headQualifier,coordinate⟩,tail⟩ := operand
  cases hhea
  have htex : Operand.text ⟨⟨some qualifier,coordinate⟩,tail⟩=qualifier.text ++ '!' :: (coordinate.chars++tailText tail) :=
    Part.text_some _ _ _
  cases qualifier with
  | quoted names => cases hnam
  | unquoted names plain => cases hnam
  | externalQuoted content external valid =>
    unfold renameToken
    rw [htex,qualifiedMatch_text (fun _ _ h => by cases h) (coordinate_not_newline _ _)]
    dsimp only
    rw [show (Qualifier.externalQuoted content external valid).text=quoted content from rfl,qualifierName_quoted,
      if_pos (Or.inl external)]
  | externalUnquoted content valid =>
    unfold renameToken
    rw [htex]
    have hnon : qualifiedMatch ((Qualifier.externalUnquoted content valid).text ++ '!' :: (coordinate.chars++tailText tail)) =
        none := qualifiedMatch_externalUnquoted content _
    rw [hnon]

theorem head_ne_quote (hhea : operand.head.qualifier=none) : operand.text.head? ≠ some '\'' := by
  obtain ⟨⟨headQualifier,coordinate⟩,tail⟩ := operand
  cases hhea
  obtain ⟨c,rest,hcha⟩ := exists_cons_of_ne_nil coordinate.nonempty
  have hnot:=coordinate.unqualified.2
  show (coordinate.chars++tailText tail).head? ≠ _
  rw [hcha] at hnot ⊢
  exact hnot

theorem map_self_iff {f : Text → Text} {texts : List Text} : texts.map f=texts ↔ ∀ text ∈ texts, f text=text := by
  conv_lhs => rhs; rw [← map_id texts]
  exact map_inj_left

/- Without a qualifier at its head, the operand up to the first exclamation mark may be taken for one. -/
theorem misread_match (hhea : operand.head.qualifier=none) {qualifier coordinate : Text}
    (hmat : qualifiedMatch operand.text=some (qualifier,coordinate)) :
    qualifierName qualifier=qualifier ∧ ¬ ('[' ∈ qualifier ∨ ']' ∈ qualifier) := by
  unfold qualifiedMatch at hmat
  rw [quotedMatch_none (head_ne_quote hhea)] at hmat
  change unquotedMatch operand.text=_ at hmat
  unfold unquotedMatch at hmat
  dsimp only at hmat
  split at hmat
  · cases hmat
  next hne =>
    obtain ⟨rest,-,heq⟩ := Option.map_eq_some_iff.1 hmat
    obtain ⟨rfl,-⟩ := Prod.mk.inj heq
    constructor
    · refine qualifierName_unquoted fun hquote => head_ne_quote hhea ?_
      rw [head?_takeWhile] at hquote
      exact (Option.filter_eq_some_iff.1 hquote).1
    · rintro (hmem | hmem)
      · exact absurd (mem_takeWhile_imp hmem) (by decide)
      · exact absurd (mem_takeWhile_imp hmem) (by decide)

include hquote in
theorem renameToken_unqualified {operand : Operand} (hhea : operand.head.qualifier=none) (old new : Text) :
    (∀ text ∈ misread operand, casefold text=casefold old → text=new) ∧
        renameToken casefold quoteSheetname old new operand.text=operand.text ∨
      ¬ (∀ text ∈ misread operand, casefold text=casefold old → text=new) ∧
        (renameToken casefold quoteSheetname old new operand.text).head? = some '\'' := by
  unfold renameToken misread
  rw [hhea]
  dsimp only
  cases hmat : qualifiedMatch operand.text with
  | none => exact Or.inl ⟨fun text htex => (by cases htex),rfl⟩
  | some found =>
    obtain ⟨qualifier,coordinate⟩ := found
    obtain ⟨hnam,hbra⟩ := misread_match hhea hmat
    dsimp only [Option.elim]
    rw [hnam,if_neg hbra]
    by_cases hsam : (qualifier.splitOn ':').map (fun endpoint => if casefold endpoint=casefold old then new else endpoint) =
        qualifier.splitOn ':'
    · left
      rw [if_pos hsam]
      refine ⟨fun text htex hfol => ?_,rfl⟩
      have hfix:=map_self_iff.1 hsam text htex
      rw [if_pos hfol] at hfix
      exact hfix.symm
    · right
      rw [if_neg hsam,hquote]
      refine ⟨fun hall => hsam (map_self_iff.2 fun text htex => ?_),rfl⟩
      split
      next hfol => exact (hall text htex hfol).symm
      · rfl

theorem Part.names_named (h : qualifier.sheets=some names) (coordinate : Coordinate) :
    Part.names ⟨some qualifier,coordinate⟩=names.list := by
  show qualifier.sheets.elim [] SheetNames.list=_
  rw [h]
  rfl

theorem Part.names_external (h : qualifier.sheets=none) (coordinate : Coordinate) :
    Part.names ⟨some qualifier,coordinate⟩=[] := by
  show qualifier.sheets.elim [] SheetNames.list=_
  rw [h]
  rfl

theorem eq_renamed_iff :
    name=renamed casefold old new name ↔ (casefold name.chars=casefold old.chars → name=new) := by
  unfold renamed
  split
  next hfol => exact ⟨fun h _ => h,fun h => h hfol⟩
  next hfol => exact ⟨fun _ h => absurd h hfol,fun _ => rfl⟩

theorem tail_refl {parts : List Part} (h : ∀ part ∈ parts, ∀ name ∈ part.names, R name name) :
    List.Forall₂ (RelatedPart R) parts parts := by
  induction parts with
  | nil => exact .nil
  | cons part rest ih =>
    exact .cons (RelatedPart.refl (h part mem_cons_self)) (ih fun other hoth => h other (mem_cons_of_mem _ hoth))

theorem Related.refl_of (hhea : ∀ name ∈ operand.head.names, R name name)
    (htai : ∀ part ∈ operand.tail, ∀ name ∈ part.names, R name name) : Related R operand operand :=
  ⟨RelatedPart.refl hhea,tail_refl htai⟩

theorem map_eq_self {f : SheetName → SheetName} (h : ∀ name ∈ names.list, f name=name) : names.map f=names := by
  obtain ⟨first,last⟩ := names
  cases last with
  | none => exact congrArg (SheetNames.mk · none) (h first mem_cons_self)
  | some last =>
    show SheetNames.mk (f first) (some (f last))=_
    rw [h first mem_cons_self,h last (mem_cons_of_mem _ mem_cons_self)]

include hquote in
/-- An operand is renamed as it should be exactly where no name behind its head is the sheet's, and nothing is misread. -/
theorem renamed_iff (operand : Operand) :
    Renamed casefold old new operand (renameToken casefold quoteSheetname old.chars new.chars operand.text) ↔
      (∀ part ∈ operand.tail, ∀ name ∈ part.names, casefold name.chars=casefold old.chars → name=new) ∧
        ∀ text ∈ misread operand, casefold text=casefold old.chars → text=new.chars := by
  cases hhea : operand.head.qualifier with
  | none =>
    have hnam : ∀ name ∈ operand.head.names, name=renamed casefold old new name := by
      intro name hnae
      unfold Part.names at hnae
      rw [hhea] at hnae
      cases hnae
    rcases @renameToken_unqualified casefold quoteSheetname hquote operand hhea old.chars new.chars with
      ⟨hmis,htok⟩ | ⟨hmis,htok⟩
    · rw [htok]
      constructor
      · rintro ⟨⟨operand',htex,hrel⟩,-⟩
        refine ⟨fun part hpar name hnae => ?_,hmis⟩
        have hsam:=@RelatedPart.same _ _ _ hrel.head operand.tail operand'.tail htex.symm
        exact eq_renamed_iff.1 (related_tail_same hrel.tail hsam.1 part hpar name hnae)
      · rintro ⟨htai,-⟩
        exact ⟨⟨operand,rfl,Related.refl_of hnam fun part hpar name hnae => eq_renamed_iff.2 (htai part hpar name hnae)⟩,
          fun _ => rfl⟩
    · constructor
      · rintro ⟨⟨operand',htex,hrel⟩,-⟩
        -- the text begins with a quote, and the operand has none at its head
        have hhea' : operand'.head.qualifier=none := by
          obtain ⟨⟨headQualifier,coordinate⟩,tail⟩ := operand
          cases hhea
          have hpar:=hrel.head
          obtain ⟨head',tail'⟩ := operand'
          cases hpar
          rfl
        rw [← htex] at htok
        exact absurd htok (head_ne_quote hhea')
      · rintro ⟨-,hall⟩
        exact absurd hall hmis
  | some qualifier =>
    have hmis : misread operand=[] := by
      unfold misread
      rw [hhea]
    have hmisreadAll : ∀ text ∈ misread operand, casefold text=casefold old.chars → text=new.chars := by
      rw [hmis]
      exact fun text htex => by cases htex
    cases hnam : qualifier.sheets with
    | none =>
      rw [renameToken_external hhea hnam]
      have hheadNames : operand.head.names=[] := by
        obtain ⟨⟨headQualifier,coordinate⟩,tail⟩ := operand
        cases hhea
        exact Part.names_external hnam coordinate
      constructor
      · rintro ⟨⟨operand',htex,hrel⟩,-⟩
        refine ⟨fun part hpar name hnae => ?_,hmisreadAll⟩
        have hsam:=@RelatedPart.same _ _ _ hrel.head operand.tail operand'.tail htex.symm
        exact eq_renamed_iff.1 (related_tail_same hrel.tail hsam.1 part hpar name hnae)
      · rintro ⟨htai,-⟩
        refine ⟨⟨operand,rfl,Related.refl_of (fun name hnae => ?_) fun part hpar name hnae =>
          eq_renamed_iff.2 (htai part hpar name hnae)⟩,fun _ => rfl⟩
        rw [hheadNames] at hnae
        cases hnae
    | some names =>
      obtain ⟨qualifier',hnam',htok,hunc⟩ :=
        @renameToken_named casefold quoteSheetname hquote old new _ _ _ hhea hnam
      obtain ⟨⟨headQualifier,coordinate⟩,tail⟩ := operand
      cases hhea
      rw [htok]
      have hlis : List.Forall₂ (fun name name' => name'=renamed casefold old new name) names.list
          (names.map (renamed casefold old new)).list := by
        rw [SheetNames.list_map]
        exact List.forall₂_map_right_iff.2 (List.forall₂_same.2 fun _ _ => rfl)
      constructor
      · rintro ⟨⟨operand',htex,hrel⟩,-⟩
        refine ⟨fun part hpar name hnae => ?_,hmisreadAll⟩
        obtain ⟨hheadRelated,htailRelated⟩ := hrel
        obtain ⟨head',tail'⟩ := operand'
        cases hheadRelated with
        | external _ _ hext => exact absurd (hext.symm.trans hnam) (by simp)
        | @named _ other _ others _ hown hoth _ =>
          have heq : other.text ++ '!' :: (coordinate.chars++tailText tail') =
              qualifier'.text ++ '!' :: (coordinate.chars++tailText tail) := by
            rw [← Part.text_some,← Part.text_some]
            exact htex
          obtain ⟨-,hres⟩ := qualified_inj hoth hnam' (coordinate_not_newline _ _) (coordinate_not_newline _ _) heq
          exact eq_renamed_iff.1
            (related_tail_same htailRelated (append_cancel_left hres).symm part hpar name hnae)
      · rintro ⟨htai,-⟩
        refine ⟨⟨_,rfl,.named coordinate hnam hnam' hlis,
          tail_refl fun part hpar name hnae => eq_renamed_iff.2 (htai part hpar name hnae)⟩,fun hnon => ?_⟩
        have hsam : names.map (renamed casefold old new)=names := by
          refine map_eq_self fun name hnae => ?_
          unfold renamed
          refine if_neg (hnon name ?_)
          refine mem_append_left _ ?_
          rw [Part.names_named hnam]
          exact hnae
        rw [hunc hsam]

section Restored
variable {titles : List SheetName} (hold : old ∈ titles)
include hold

theorem resolved_old :
    resolved casefold titles name=resolved casefold titles old ↔ casefold name.chars=casefold old.chars := by
  constructor
  · intro h
    have hsom : (resolved casefold titles old).isSome=true := by
      unfold resolved
      rw [findIdx?_isSome]
      exact any_eq_true.2 ⟨old,hold,decide_eq_true rfl⟩
    obtain ⟨i,hi⟩ := Option.isSome_iff_exists.1 hsom
    rw [hi] at h
    obtain ⟨hlt,hfou,-⟩ := findIdx?_eq_some_iff_getElem.1 h
    obtain ⟨_,hfoundOld,-⟩ := findIdx?_eq_some_iff_getElem.1 hi
    exact (of_decide_eq_true hfou).symm.trans (of_decide_eq_true hfoundOld)
  · intro h
    unfold resolved
    rw [h]

/-- Renaming there and back leaves a name its sheet exactly where it is not the new name of a sheet that is missing. -/
theorem resolved_back :
    resolved casefold titles (renamed casefold new old (renamed casefold old new name))=resolved casefold titles name ↔
      (casefold name.chars=casefold new.chars → casefold name.chars=casefold old.chars) := by
  by_cases hfol : casefold name.chars=casefold old.chars
  · refine ⟨fun _ _ => hfol,fun _ => ?_⟩
    unfold renamed
    rw [if_pos hfol,if_pos rfl]
    unfold resolved
    rw [hfol]
  · have hfor : renamed casefold old new name=name := if_neg hfol
    rw [hfor]
    by_cases hmis : casefold name.chars=casefold new.chars
    · have hbac : renamed casefold new old name=old := if_pos hmis
      rw [hbac]
      constructor
      · exact fun h _ => (resolved_old hold).1 h.symm
      · exact fun h => absurd (h hmis) hfol
    · have hbac : renamed casefold new old name=name := if_neg hmis
      rw [hbac]
      exact ⟨fun _ h => absurd h hmis,fun _ => rfl⟩

include hquote in
/-- What is renamed as it should be is restored exactly where the new name is not that of a missing sheet, and nothing is
misread on the way back. -/
theorem restored_iff
    (h : Renamed casefold old new operand (renameToken casefold quoteSheetname old.chars new.chars operand.text)) :
    Restored casefold titles operand (renameToken casefold quoteSheetname new.chars old.chars
        (renameToken casefold quoteSheetname old.chars new.chars operand.text)) ↔
      (∀ text ∈ misread operand, casefold text=casefold new.chars → text=old.chars) ∧
        ∀ name ∈ operand.head.names, casefold name.chars=casefold new.chars → casefold name.chars=casefold old.chars := by
  have hspa:=(@renamed_iff casefold quoteSheetname hquote old new operand).1 h
  have hsel : Restored casefold titles operand operand.text := ⟨operand,rfl,Related.refl_of (fun _ _ => rfl) fun _ _ _ _ => rfl⟩
  cases hhed : operand.head.qualifier with
  | none =>
    have hnon : operand.head.names=[] := by
      unfold Part.names
      rw [hhed]
      rfl
    have hfod : renameToken casefold quoteSheetname old.chars new.chars operand.text=operand.text := by
      rcases @renameToken_unqualified casefold quoteSheetname hquote operand hhed old.chars new.chars with ⟨-,htok⟩ | ⟨hnot,-⟩
      · exact htok
      · exact absurd hspa.2 hnot
    rw [hfod,hnon]
    rcases @renameToken_unqualified casefold quoteSheetname hquote operand hhed new.chars old.chars with ⟨hall,htok⟩ | ⟨hnot,htok⟩
    · rw [htok]
      exact ⟨fun _ => ⟨hall,fun name hnae => by cases hnae⟩,fun _ => hsel⟩
    · constructor
      · rintro ⟨operand',htex,hrel⟩
        have hhea' : operand'.head.qualifier=none := by
          obtain ⟨⟨headQualifier,coordinate⟩,tail⟩ := operand
          cases hhed
          have hpar:=hrel.head
          obtain ⟨head',tail'⟩ := operand'
          cases hpar
          rfl
        rw [← htex] at htok
        exact absurd htok (head_ne_quote hhea')
      · rintro ⟨hall,-⟩
        exact absurd hall hnot
  | some qualifier =>
    have hmis : misread operand=[] := by
      unfold misread
      rw [hhed]
    rw [hmis]
    cases hnam : qualifier.sheets with
    | none =>
      rw [renameToken_external hhed hnam,renameToken_external hhed hnam]
      refine ⟨fun _ => ⟨fun text htex => (by cases htex),fun name hnae => ?_⟩,fun _ => hsel⟩
      obtain ⟨⟨headQualifier,coordinate⟩,tail⟩ := operand
      cases hhed
      rw [Part.names_external hnam] at hnae
      cases hnae
    | some names =>
      obtain ⟨qualifier₁,hna₁,hto₁,-⟩ :=
        @renameToken_named casefold quoteSheetname hquote old new _ _ _ hhed hnam
      rw [hto₁]
      have hhea : (⟨⟨some qualifier₁,operand.head.coordinate⟩,operand.tail⟩ : Operand).head.qualifier=some qualifier₁ := rfl
      obtain ⟨qualifier₂,hna₂,hto₂,-⟩ :=
        @renameToken_named casefold quoteSheetname hquote new old _ _ _ hhea hna₁
      rw [hto₂]
      obtain ⟨⟨headQualifier,coordinate⟩,tail⟩ := operand
      cases hhed
      have hlis : ((names.map (renamed casefold old new)).map (renamed casefold new old)).list =
          names.list.map fun name => renamed casefold new old (renamed casefold old new name) := by
        rw [SheetNames.list_map,SheetNames.list_map,map_map]
        rfl
      show _ ↔ _ ∧ ∀ name ∈ Part.names ⟨some qualifier,coordinate⟩, _
      rw [Part.names_named hnam]
      constructor
      · rintro ⟨operand',htex,hrel⟩
        obtain ⟨hheadRelated,-⟩ := hrel
        obtain ⟨head',tail'⟩ := operand'
        refine ⟨fun text htex => (by cases htex),fun name hnae => ?_⟩
        cases hheadRelated with
        | external _ _ hext => exact absurd (hext.symm.trans hnam) (by simp)
        | @named _ other owned others _ hown hoth hfor =>
          obtain rfl : names=owned := Option.some.inj (hnam.symm.trans hown)
          have heq : other.text ++ '!' :: (coordinate.chars++tailText tail') =
              qualifier₂.text ++ '!' :: (coordinate.chars++tailText tail) := by
            rw [← Part.text_some,← Part.text_some]
            exact htex
          obtain ⟨rfl,-⟩ := qualified_inj hoth hna₂ (coordinate_not_newline _ _) (coordinate_not_newline _ _) heq
          rw [hlis] at hfor
          exact (resolved_back hold).1 (List.forall₂_same.1 (List.forall₂_map_right_iff.1 hfor) name hnae)
      · rintro ⟨-,hmig⟩
        refine ⟨_,rfl,.named coordinate hnam hna₂ ?_,tail_refl fun _ _ _ _ => rfl⟩
        rw [hlis]
        exact List.forall₂_map_right_iff.2
          (List.forall₂_same.2 fun name hnae => (resolved_back hold).2 (hmig name hnae))

include hquote in
theorem spared_iff (operand : Operand) :
    Renamed casefold old new operand (renameToken casefold quoteSheetname old.chars new.chars operand.text) ∧
        Restored casefold titles operand (renameToken casefold quoteSheetname new.chars old.chars
          (renameToken casefold quoteSheetname old.chars new.chars operand.text)) ↔
      Spared casefold old new operand := by
  constructor
  · rintro ⟨hren,hres⟩
    obtain ⟨htai,hmis⟩ := (renamed_iff hquote operand).1 hren
    obtain ⟨hmis',hmig⟩ := (restored_iff hquote hold hren).1 hres
    exact ⟨htai,fun text htex => ⟨hmis text htex,hmis' text htex⟩,hmig⟩
  · intro h
    have hren:=(@renamed_iff casefold quoteSheetname hquote old new operand).2 ⟨h.tail,fun text htex => (h.misread text htex).1⟩
    exact ⟨hren,(restored_iff hquote hold hren).2 ⟨fun text htex => (h.misread text htex).2,h.missing⟩⟩

end Restored

end Token

end Qubicl.Skills.Xlsx
