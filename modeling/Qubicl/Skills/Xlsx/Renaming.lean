import Mathlib.Data.List.Nodup
import Qubicl.Skills.Xlsx.RenameOperands

/-!
# Every formula after a renaming

The formulas of a workbook are rewritten one by one, each token by token. What that does to an operand is known; here it is
said of the workbook, of the renaming and of the one that takes it back.
-/

namespace Qubicl.Skills.Xlsx
open Foundation List

inductive FormulaToken
  | operand (operand : Operand)
  | other (text : Text)

def FormulaToken.value : FormulaToken → Text
  | operand op => op.text
  | other text => text

def FormulaToken.token : FormulaToken → Token
  | operand op => ⟨op.text,true⟩
  | other text => ⟨text,false⟩

structure Formula where
  equals : Bool
  tokens : List FormulaToken

/- The text of a formula whose operands have been given other texts. -/
def Formula.textWith (formula : Formula) (callback : Text → Text) : Text :=
  (if formula.equals then ['='] else [])++formula.tokens.flatMap fun
    | .operand operand => callback operand.text
    | .other text => text

def Formula.text (formula : Formula) : Text := formula.textWith id

def Formula.body (formula : Formula) : Text := formula.tokens.flatMap FormulaToken.value

inductive FormulaToken.Becomes (callback : Text → Text) : FormulaToken → FormulaToken → Prop
  | operand {op op' : Operand} : op'.text=callback op.text → Becomes callback (.operand op) (.operand op')
  | other (text : Text) : Becomes callback (.other text) (.other text)

structure Formula.Becomes (callback : Text → Text) (formula formula' : Formula) : Prop where
  equals : formula'.equals=formula.equals
  tokens : List.Forall₂ (FormulaToken.Becomes callback) formula.tokens formula'.tokens

/-- The tokenizer splits the formula correctly. -/
structure Splits (tokenizer : Text → List Token) (formula : Formula) : Prop where
  tokens : tokenizer ('=' :: formula.body)=formula.tokens.map FormulaToken.token
  equals : formula.equals=false → formula.body.head? ≠ some '='
  nonempty : formula.text≠[]

variable {formula formula' : Formula}

section Workbooks
variable {tokenizer : Text → List Token} {casefold quoteSheetname : Text → Text}

theorem text_eq (formula : Formula) : formula.text=(if formula.equals then ['='] else [])++formula.body := by
  unfold Formula.text Formula.textWith Formula.body
  congr 1

theorem rewriteRangeTokens_text (h : Splits tokenizer formula) (callback : Text → Text) :
    rewriteRangeTokens tokenizer formula.text callback=formula.textWith callback := by
  have hrew : (formula.tokens.map FormulaToken.token).flatMap
      (fun token => if token.range then callback token.value else token.value) =
        formula.tokens.flatMap fun | .operand operand => callback operand.text | .other text => text := by
    rw [flatMap_map]
    refine flatMap_congr fun token _ => ?_
    cases token with
    | operand operand => rfl
    | other text => rfl
  unfold rewriteRangeTokens Formula.textWith
  rw [text_eq]
  cases hequ : formula.equals with
  | true =>
    show '=' :: (tokenizer ('=' :: formula.body)).flatMap _=_
    rw [h.tokens,hrew]
    rfl
  | false =>
    have hnot : ¬ ((if false=true then ['='] else [])++formula.body).head? = some '=' := h.equals hequ
    dsimp only
    rw [if_neg hnot,if_neg hnot]
    show (tokenizer ('=' :: formula.body)).flatMap _=_
    rw [h.tokens,hrew]
    rfl

theorem rewriteFormula_text (h : Splits tokenizer formula) (old new : Text) :
    rewriteFormula tokenizer casefold quoteSheetname old new formula.text =
      formula.textWith (renameToken casefold quoteSheetname old new) := by
  unfold rewriteFormula
  rw [if_neg h.nonempty,rewriteRangeTokens_text h]

theorem Formula.Becomes.textWith {callback : Text → Text} (h : formula.Becomes callback formula') (next : Text → Text) :
    formula'.textWith next=formula.textWith (next ∘ callback) := by
  obtain ⟨hequ,htok⟩ := h
  unfold Formula.textWith
  rw [hequ]
  congr 1
  generalize formula.tokens=tokens at htok
  generalize formula'.tokens=tokens' at htok
  induction htok with
  | nil => rfl
  | cons hhead _ ih =>
    rw [flatMap_cons,flatMap_cons,ih]
    congr 1
    cases hhead with
    | operand htex => exact congrArg next htex
    | other text => rfl

theorem rewriteFormula_becomes {old new : Text} (h : Splits tokenizer formula) (h' : Splits tokenizer formula')
    (hbec : formula.Becomes (renameToken casefold quoteSheetname old new) formula') :
    rewriteFormula tokenizer casefold quoteSheetname old new formula.text=formula'.text ∧
      rewriteFormula tokenizer casefold quoteSheetname new old formula'.text=formula.textWith
        (renameToken casefold quoteSheetname new old ∘ renameToken casefold quoteSheetname old new) := by
  constructor
  · rw [rewriteFormula_text h]
    exact (hbec.textWith id).symm
  · rw [rewriteFormula_text h',hbec.textWith]

theorem flatMap_length_le {α β : Type} {f g : α → List β} {l : List α} (h : ∀ a ∈ l, (g a).length≤(f a).length) :
    (l.flatMap g).length≤(l.flatMap f).length ∧
      ((l.flatMap g).length=(l.flatMap f).length → ∀ a ∈ l, (g a).length=(f a).length) := by
  induction l with
  | nil => exact ⟨Nat.le_refl _,fun _ a ha => by cases ha⟩
  | cons a rest ih =>
    obtain ⟨hle,heq⟩ := ih fun b hb => h b (mem_cons_of_mem _ hb)
    have hher:=h a mem_cons_self
    rw [flatMap_cons,flatMap_cons,length_append,length_append]
    refine ⟨by omega,fun htot b hb => ?_⟩
    rcases mem_cons.1 hb with rfl | hb
    · omega
    · exact heq (by omega) b hb

section Places
variable {rewrite : Text → Text} (hhead : ∀ text, text.head? = some '=' → (rewrite text).head? = some '=')

theorem rewriteInput_formulas (reference : Option Text) (deleted : Bool) :
    (rewriteInput rewrite reference deleted).1.toList=(reference.toList.map rewrite).filter (!containsRef ·) := by
  cases reference with
  | none => rfl
  | some text =>
    unfold rewriteInput
    dsimp only
    split
    next hlos =>
      show []=[rewrite text].filter _
      rw [filter_cons_of_neg (by simp [hlos])]
      rfl
    next hkep =>
      show [rewrite text]=[rewrite text].filter _
      rw [filter_cons_of_pos (by simp [hkep])]
      rfl

def CellValue.Kept (rewrite : Text → Text) (value : CellValue) : Prop := ∀ text ∈ value.inputs, containsRef (rewrite text)=false

include hhead in
theorem rewriteValue_formulas (value : CellValue) :
    (rewriteValue rewrite value).formulas.length≤(value.formulas.map rewrite).length ∧
      ((rewriteValue rewrite value).formulas.length=(value.formulas.map rewrite).length ↔ value.Kept rewrite) ∧
        (value.Kept rewrite → (rewriteValue rewrite value).formulas=value.formulas.map rewrite) := by
  have hsam : (rewriteValue rewrite value).formulas=value.formulas.map rewrite → value.inputs=[] →
      (rewriteValue rewrite value).formulas.length≤(value.formulas.map rewrite).length ∧
        ((rewriteValue rewrite value).formulas.length=(value.formulas.map rewrite).length ↔ value.Kept rewrite) ∧
          (value.Kept rewrite → (rewriteValue rewrite value).formulas=value.formulas.map rewrite) := by
    intro heq hnon
    refine ⟨Nat.le_of_eq (congrArg _ heq),⟨fun _ text htex => ?_,fun _ => congrArg _ heq⟩,fun _ => heq⟩
    rw [hnon] at htex
    cases htex
  cases value with
  | text value =>
    refine hsam ?_ rfl
    show (if value.head? = some '=' then CellValue.text (rewrite value) else .text value).formulas=_
    split
    next hequ =>
      show (if (rewrite value).head? = some '=' then _ else _)=(if value.head? = some '=' then [value] else []).map rewrite
      rw [if_pos hequ,if_pos (hhead value hequ)]
      rfl
    next hequ =>
      show (if value.head? = some '=' then _ else _)=(if value.head? = some '=' then [value] else []).map rewrite
      rw [if_neg hequ]
      rfl
  | array formula => exact hsam rfl rfl
  | other => exact hsam rfl rfl
  | dataTable r1 r2 del1 del2 ca =>
    have hfor : (rewriteValue rewrite (.dataTable r1 r2 del1 del2 ca)).formulas =
        ((r1.toList++r2.toList).map rewrite).filter (!containsRef ·) := by
      show (rewriteInput rewrite r1 del1).1.toList++(rewriteInput rewrite r2 del2).1.toList=_
      rw [rewriteInput_formulas,rewriteInput_formulas,← filter_append,map_append]
    rw [hfor]
    have hkep : (∀ text ∈ (r1.toList++r2.toList).map rewrite, (!containsRef text)=true) ↔
        (CellValue.dataTable r1 r2 del1 del2 ca).Kept rewrite := by
      rw [forall_mem_map]
      unfold CellValue.Kept
      simp only [Bool.not_eq_true',CellValue.inputs]
    refine ⟨length_filter_le _ _,?_,fun h => filter_eq_self.2 (hkep.2 h)⟩
    rw [← hkep]
    exact length_filter_eq_length_iff

theorem rewriteTarget_formulas (target : Text) : targetFormula (rewriteTarget rewrite target)=(targetFormula target).map rewrite := by
  unfold rewriteTarget
  split
  · rfl
  next hnot =>
    unfold targetFormula
    split
    next rest => exact absurd rfl (hnot rest)
    · rfl

include hhead in
theorem rewriteCell_formulas (cell : Cell) :
    (rewriteCell rewrite cell).formulas.length≤(cell.formulas.map rewrite).length ∧
      ((rewriteCell rewrite cell).formulas.length=(cell.formulas.map rewrite).length ↔ cell.value.Kept rewrite) ∧
        (cell.value.Kept rewrite → (rewriteCell rewrite cell).formulas=cell.formulas.map rewrite) := by
  obtain ⟨value,location,target⟩ := cell
  obtain ⟨hle,hiff,hkep⟩ := rewriteValue_formulas hhead value
  have hloc : (location.map rewrite).toList=location.toList.map rewrite := by
    cases location with
    | none => rfl
    | some text => rfl
  have htar : (target.map (rewriteTarget rewrite)).toList.flatMap targetFormula =
      (target.toList.flatMap targetFormula).map rewrite := by
    cases target with
    | none => rfl
    | some text =>
      show targetFormula (rewriteTarget rewrite text)++[]=(targetFormula text++[]).map rewrite
      rw [append_nil,append_nil,rewriteTarget_formulas]
  have haft : (rewriteCell rewrite ⟨value,location,target⟩).formulas=(rewriteValue rewrite value).formulas ++
      location.toList.map rewrite++(target.toList.flatMap targetFormula).map rewrite := by
    show _++(location.map rewrite).toList++(target.map (rewriteTarget rewrite)).toList.flatMap targetFormula=_
    rw [hloc,htar]
    rfl
  have hbef : (Cell.formulas ⟨value,location,target⟩).map rewrite=value.formulas.map rewrite ++
      location.toList.map rewrite++(target.toList.flatMap targetFormula).map rewrite := by
    unfold Cell.formulas
    rw [map_append,map_append]
  rw [haft,hbef]
  refine ⟨?_,?_,fun h => by rw [hkep h]⟩
  · simp only [length_append]
    omega
  · rw [← hiff]
    simp only [length_append]
    omega

include hhead in
/-- The formulas of the workbook are those of before, rewritten, exactly where no input of a data table is lost. -/
theorem rewriteWorkbookReferences_formulas (wb : Workbook) :
    (rewriteWorkbookReferences rewrite wb).formulas=wb.formulas.map rewrite ↔
      ∀ text ∈ wb.inputs, containsRef (rewrite text)=false := by
  have hcel : ∀ sheet : Worksheet, ((rewriteSheet rewrite sheet).cells.flatMap Cell.formulas) =
      sheet.cells.flatMap fun cell => (rewriteCell rewrite cell).formulas := fun _ => flatMap_map _ _ _
  have hnam : ∀ names : List (Text × Text), (rewriteNames rewrite names).map Prod.snd=(names.map Prod.snd).map rewrite := by
    intro names
    unfold rewriteNames
    rw [map_map,map_map]
    rfl
  have hcol : ∀ column : TableColumn, (rewriteColumn rewrite column).calculatedColumnFormula.toList ++
      (rewriteColumn rewrite column).totalsRowFormula.toList =
        (column.calculatedColumnFormula.toList++column.totalsRowFormula.toList).map rewrite := by
    rintro ⟨calculated,totals⟩
    cases calculated <;> cases totals <;> rfl
  have hcos : ∀ sheet : Worksheet, (rewriteSheet rewrite sheet).tableColumns.flatMap
      (fun column => column.calculatedColumnFormula.toList++column.totalsRowFormula.toList) =
        (sheet.tableColumns.flatMap fun column => column.calculatedColumnFormula.toList++column.totalsRowFormula.toList).map
          rewrite := by
    intro sheet
    show (sheet.tableColumns.map (rewriteColumn rewrite)).flatMap _=_
    rw [flatMap_map,map_flatMap]
    exact flatMap_congr fun column _ => hcol column
  have hsheetAfter : ∀ sheet : Worksheet, (rewriteSheet rewrite sheet).formulas =
      (sheet.cells.flatMap fun cell => (rewriteCell rewrite cell).formulas) ++
        (sheet.tableColumns.flatMap fun column => column.calculatedColumnFormula.toList++column.totalsRowFormula.toList).map
          rewrite++(sheet.definedNames.map Prod.snd).map rewrite := by
    intro sheet
    unfold Worksheet.formulas
    rw [hcel,hcos]
    show _++_++(rewriteNames rewrite sheet.definedNames).map Prod.snd=_
    rw [hnam]
  have hsheetBefore : ∀ sheet : Worksheet, sheet.formulas.map rewrite =
      (sheet.cells.flatMap fun cell => cell.formulas.map rewrite) ++
        (sheet.tableColumns.flatMap fun column => column.calculatedColumnFormula.toList++column.totalsRowFormula.toList).map
          rewrite++(sheet.definedNames.map Prod.snd).map rewrite := by
    intro sheet
    unfold Worksheet.formulas
    rw [map_append,map_append,map_flatMap]
  have hcellsLe : ∀ sheet : Worksheet, ∀ cell ∈ sheet.cells,
      (rewriteCell rewrite cell).formulas.length≤(cell.formulas.map rewrite).length :=
    fun _ cell _ => (rewriteCell_formulas hhead cell).1
  have hsheetLe : ∀ sheet ∈ wb.worksheets, (rewriteSheet rewrite sheet).formulas.length≤(sheet.formulas.map rewrite).length := by
    intro sheet _
    rw [hsheetAfter,hsheetBefore]
    have hle:=(flatMap_length_le (hcellsLe sheet)).1
    simp only [length_append]
    omega
  have hwbAfter : (rewriteWorkbookReferences rewrite wb).formulas =
      (wb.worksheets.flatMap fun sheet => (rewriteSheet rewrite sheet).formulas)++(wb.definedNames.map Prod.snd).map rewrite := by
    show (wb.worksheets.map (rewriteSheet rewrite)).flatMap Worksheet.formulas++_=_
    rw [flatMap_map]
    exact congrArg (_ ++ ·) (hnam wb.definedNames)
  have hwbBefore : wb.formulas.map rewrite =
      (wb.worksheets.flatMap fun sheet => sheet.formulas.map rewrite)++(wb.definedNames.map Prod.snd).map rewrite := by
    unfold Workbook.formulas
    rw [map_append,map_flatMap]
  have hinp : (∀ text ∈ wb.inputs, containsRef (rewrite text)=false) ↔
      ∀ sheet ∈ wb.worksheets, ∀ cell ∈ sheet.cells, cell.value.Kept rewrite := by
    unfold Workbook.inputs
    simp only [mem_flatMap]
    constructor
    · exact fun h sheet hshe cell hcell text htex => h text ⟨sheet,hshe,cell,hcell,htex⟩
    · rintro h text ⟨sheet,hshe,cell,hcell,htex⟩
      exact h sheet hshe cell hcell text htex
  rw [hwbAfter,hwbBefore,hinp]
  constructor
  · intro heq sheet hshe cell hcell
    have hshs:=(flatMap_length_le hsheetLe).2 (congrArg List.length (append_cancel_right heq)) sheet hshe
    rw [hsheetAfter,hsheetBefore] at hshs
    simp only [length_append] at hshs
    have hcellEq:=(flatMap_length_le (hcellsLe sheet)).2 (by omega) cell hcell
    exact (rewriteCell_formulas hhead cell).2.1.1 hcellEq
  · intro hkep
    congr 1
    refine flatMap_congr fun sheet hshe => ?_
    rw [hsheetAfter,hsheetBefore]
    congr 2
    exact flatMap_congr fun cell hcell => (rewriteCell_formulas hhead cell).2.2 (hkep sheet hshe cell hcell)

end Places

theorem rewriteFormula_head (old new text : Text) (h : text.head? = some '=') :
    (rewriteFormula tokenizer casefold quoteSheetname old new text).head? = some '=' := by
  have hne : text≠[] := by
    rintro rfl
    cases h
  unfold rewriteFormula rewriteRangeTokens
  rw [if_neg hne]
  dsimp only
  rw [if_pos h]
  rfl

section Rename
variable {wb wb' : Workbook} {old new : SheetName}

def retitled (wb : Workbook) (old new : SheetName) : Workbook :=
  { wb with worksheets := wb.worksheets.map fun sheet => if sheet.title=old then { sheet with title := new } else sheet }

theorem retitled_sheets {α : Type} (f : Worksheet → List α) (hf : ∀ sheet title, f { sheet with title := title } = f sheet) :
    (retitled wb old new).worksheets.flatMap f=wb.worksheets.flatMap f := by
  show (wb.worksheets.map _).flatMap f=_
  rw [flatMap_map]
  refine flatMap_congr fun sheet _ => ?_
  split
  · exact hf sheet new
  · rfl

theorem retitled_titles : (retitled wb old new).titles=wb.titles.map fun title => if title=old then new else title := by
  unfold Workbook.titles
  show (wb.worksheets.map _).map Worksheet.title=_
  rw [map_map,map_map]
  refine map_congr_left fun sheet _ => ?_
  show (if sheet.title=old then { sheet with title := new } else sheet).title=if sheet.title=old then new else sheet.title
  split
  · rfl
  · rfl

theorem renameSheet_ok (h : renameSheet tokenizer casefold quoteSheetname wb old new=.ok wb') :
    old ∈ wb.titles ∧ (∀ title ∈ wb.titles, casefold title.chars=casefold new.chars → title=old) ∧
      wb'=rewriteWorkbookReferences (rewriteFormula tokenizer casefold quoteSheetname old.chars new.chars) (retitled wb old new) := by
  unfold renameSheet at h
  split at h
  · cases h
  next hmem =>
    split at h
    · cases h
    next hfre =>
      refine ⟨not_not.1 hmem,fun title htit hfol => ?_,(Except.ok.inj h).symm⟩
      by_contra hne
      exact hfre (any_eq_true.2 ⟨title,htit,by simp [hne,hfol]⟩)

theorem rewriteWorkbookReferences_titles (rewrite : Text → Text) (wb : Workbook) :
    (rewriteWorkbookReferences rewrite wb).titles=wb.titles := by
  unfold Workbook.titles
  show (wb.worksheets.map (rewriteSheet rewrite)).map Worksheet.title=_
  rw [map_map]
  rfl

/-- The opposite renaming is accepted, and gives the sheets the names they had. -/
theorem renameSheet_back (hdis : (wb.titles.map fun title => casefold title.chars).Nodup)
    (h : renameSheet tokenizer casefold quoteSheetname wb old new=.ok wb') :
    ∃ wb'', renameSheet tokenizer casefold quoteSheetname wb' new old=.ok wb'' ∧ wb''.titles=wb.titles := by
  obtain ⟨hold,hnew,rfl⟩ := renameSheet_ok h
  have hsam : ∀ title ∈ wb.titles, casefold title.chars=casefold old.chars → title=old :=
    fun title htit hfol => inj_on_of_nodup_map hdis htit hold hfol
  have htis : (rewriteWorkbookReferences (rewriteFormula tokenizer casefold quoteSheetname old.chars new.chars)
      (retitled wb old new)).titles=wb.titles.map fun title => if title=old then new else title := by
    rw [rewriteWorkbookReferences_titles,retitled_titles]
  have hmem : new ∈ wb.titles.map fun title => if title=old then new else title :=
    mem_map.2 ⟨old,hold,if_pos rfl⟩
  have hfre : ¬ ((wb.titles.map fun title => if title=old then new else title).any fun title =>
      title≠new && casefold title.chars=casefold old.chars)=true := by
    intro hany
    obtain ⟨title',hmem',hbot⟩ := any_eq_true.1 hany
    obtain ⟨title,htit,rfl⟩ := mem_map.1 hmem'
    obtain ⟨hne,hfol⟩ := Bool.and_eq_true_iff.1 hbot
    by_cases heq : title=old
    · rw [if_pos heq] at hne
      exact absurd rfl (of_decide_eq_true hne)
    · rw [if_neg heq] at hfol
      exact heq (hsam title htit (of_decide_eq_true hfol))
  refine ⟨rewriteWorkbookReferences (rewriteFormula tokenizer casefold quoteSheetname new.chars old.chars)
    (retitled (rewriteWorkbookReferences (rewriteFormula tokenizer casefold quoteSheetname old.chars new.chars)
      (retitled wb old new)) new old),?_,?_⟩
  · unfold renameSheet
    rw [htis,if_neg (not_not.2 hmem),if_neg hfre]
    rfl
  · rw [rewriteWorkbookReferences_titles,retitled_titles,htis,map_map]
    conv_rhs => rw [← map_id wb.titles]
    refine map_congr_left fun title htit => ?_
    show (if (if title=old then new else title)=new then old else if title=old then new else title)=title
    by_cases heq : title=old
    · rw [if_pos heq,if_pos rfl]
      exact heq.symm
    · rw [if_neg heq,if_neg]
      rintro rfl
      exact heq (hnew title htit rfl)

/-- Each formula is rewritten token by token, none is lost but the inputs of data tables that now read like a lost reference,
and an operand names the new sheet where it named the old one, stays as it is elsewhere, and denotes the same again after the
opposite renaming, exactly where it is spared. -/
theorem renameSheet_spec (hquote : ∀ name, quoteSheetname name=quoted name)
    (hdistinct : (wb.titles.map fun title => casefold title.chars).Nodup)
    (h : renameSheet tokenizer casefold quoteSheetname wb old new=.ok wb') :
    (wb'.formulas=wb.formulas.map (rewriteFormula tokenizer casefold quoteSheetname old.chars new.chars) ↔
        ∀ text ∈ wb.inputs, containsRef (rewriteFormula tokenizer casefold quoteSheetname old.chars new.chars text)=false) ∧
      (∀ formula, Splits tokenizer formula →
        rewriteFormula tokenizer casefold quoteSheetname old.chars new.chars formula.text =
            formula.textWith (renameToken casefold quoteSheetname old.chars new.chars) ∧
          ∀ formula', formula.Becomes (renameToken casefold quoteSheetname old.chars new.chars) formula' →
            Splits tokenizer formula' →
              rewriteFormula tokenizer casefold quoteSheetname new.chars old.chars formula'.text=formula.textWith
                (renameToken casefold quoteSheetname new.chars old.chars ∘
                  renameToken casefold quoteSheetname old.chars new.chars)) ∧
      (∃ wb'', renameSheet tokenizer casefold quoteSheetname wb' new old=.ok wb'' ∧ wb''.titles=wb.titles) ∧
      ∀ operand, Renamed casefold old new operand (renameToken casefold quoteSheetname old.chars new.chars operand.text) ∧
          Restored casefold wb.titles operand (renameToken casefold quoteSheetname new.chars old.chars
            (renameToken casefold quoteSheetname old.chars new.chars operand.text)) ↔
        Spared casefold old new operand := by
  have hbac:=renameSheet_back hdistinct h
  obtain ⟨hold,-,rfl⟩ := renameSheet_ok h
  refine ⟨?_,fun formula hspl => ⟨rewriteFormula_text hspl old.chars new.chars,fun formula' hbec hspl' =>
    (rewriteFormula_becomes hspl hspl' hbec).2⟩,hbac,spared_iff hquote hold⟩
  have hfor : (retitled wb old new).formulas=wb.formulas := by
    unfold Workbook.formulas
    rw [retitled_sheets Worksheet.formulas fun _ _ => rfl]
    rfl
  have hinp : (retitled wb old new).inputs=wb.inputs := by
    unfold Workbook.inputs
    exact retitled_sheets (fun sheet => sheet.cells.flatMap fun cell => cell.value.inputs) fun _ _ => rfl
  rw [← hfor,← hinp]
  exact rewriteWorkbookReferences_formulas (@rewriteFormula_head tokenizer casefold quoteSheetname old.chars new.chars) _

end Rename

end Workbooks

def dataSheet : SheetName := ⟨"Data".toList,by decide,by simp⟩
def newSheet : SheetName := ⟨"New".toList,by decide,by simp⟩
def corner : Coordinate := ⟨"A1".toList,by decide,by decide,by decide⟩
def opposite : Coordinate := ⟨"B2".toList,by decide,by decide,by decide⟩

def qualifiedPart (name : SheetName) (coordinate : Coordinate) : Part := ⟨some (.quoted ⟨name,none⟩),coordinate⟩

def singleOperand (text : Text) : List Token := [⟨text.drop 1,true⟩]

def small : Workbook :=
  ⟨[⟨dataSheet,[],[],[]⟩,⟨⟨"Sums".toList,by decide,by simp⟩,[⟨.text "='Data'!A1".toList,none,none⟩],[],[]⟩],[]⟩

/-- A reference to one cell. -/
theorem renameSheet_spec_small : ∃ wb',
    renameSheet singleOperand (List.map Char.toLower) quoted small dataSheet newSheet=.ok wb' ∧
      Renamed (List.map Char.toLower) dataSheet newSheet ⟨qualifiedPart dataSheet corner,[]⟩
        (renameToken (List.map Char.toLower) quoted dataSheet.chars newSheet.chars "'Data'!A1".toList) := by
  have hspe:=@renameSheet_spec singleOperand (List.map Char.toLower) quoted small _ dataSheet newSheet (fun _ => rfl)
    (by decide) rfl
  refine ⟨_,rfl,((hspe.2.2.2 ⟨qualifiedPart dataSheet corner,[]⟩).2 ⟨?_,?_,?_⟩).1⟩
  · intro part hpar
    cases hpar
  · intro text htex
    cases htex
  · decide

def twice : Operand := ⟨qualifiedPart dataSheet corner,[qualifiedPart dataSheet opposite]⟩

def late : Operand := ⟨⟨none,corner⟩,[⟨some (.unquoted ⟨dataSheet,none⟩ (by decide)),opposite⟩]⟩

/-- A second qualifier keeps the old name, and the end of a range before the first qualifier becomes the name of a sheet. -/
theorem qualifiers_missed :
    (twice.text = "'Data'!A1:'Data'!B2".toList ∧
      renameToken (List.map Char.toLower) quoted dataSheet.chars newSheet.chars twice.text = "'New'!A1:'Data'!B2".toList ∧
        ¬ Renamed (List.map Char.toLower) dataSheet newSheet twice
          (renameToken (List.map Char.toLower) quoted dataSheet.chars newSheet.chars twice.text)) ∧
      late.text = "A1:Data!B2".toList ∧
        renameToken (List.map Char.toLower) quoted dataSheet.chars newSheet.chars late.text = "'A1:New'!B2".toList ∧
          ¬ Renamed (List.map Char.toLower) dataSheet newSheet late
            (renameToken (List.map Char.toLower) quoted dataSheet.chars newSheet.chars late.text) := by
  have htai : ∀ operand : Operand, (∃ part ∈ operand.tail, dataSheet ∈ part.names) →
      ¬ Renamed (List.map Char.toLower) dataSheet newSheet operand
        (renameToken (List.map Char.toLower) quoted dataSheet.chars newSheet.chars operand.text) := by
    rintro operand ⟨part,hpar,hnam⟩ hren
    exact absurd (((renamed_iff (fun _ => rfl) operand).1 hren).1 part hpar dataSheet hnam rfl) (by decide)
  exact ⟨⟨by decide,by decide,htai twice ⟨_,mem_cons_self,mem_cons_self⟩⟩,by decide,by decide,
    htai late ⟨_,mem_cons_self,mem_cons_self⟩⟩

end Qubicl.Skills.Xlsx
