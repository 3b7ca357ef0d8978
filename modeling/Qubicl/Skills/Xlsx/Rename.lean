import Mathlib.Data.List.Forall2
import Mathlib.Data.List.Infix
import Qubicl.Skills.Xlsx.Qualifiers

/-!
# Renaming a sheet (skills/core/xlsx/scripts/xlsx_edit.py:103-172, xlsx_formula_values.py:25-45, xlsx_restructure_dependents.py:313-320)

Every formula of a workbook is split into tokens, and each operand among them is given the new name where its qualifier names
the sheet. The tokenizer is a package, as are the case folding of the language and the quoting of a sheet name.
-/

namespace Qubicl.Skills.Xlsx
open Foundation

inductive CellValue
  | text (value : Text)
  | array (text : Text)
  | dataTable (r1 r2 : Option Text) (del1 del2 ca : Bool)
  | other

structure Cell where
  value : CellValue
  location : Option Text
  target : Option Text

structure TableColumn where
  calculatedColumnFormula : Option Text
  totalsRowFormula : Option Text

structure Worksheet where
  title : SheetName
  cells : List Cell
  tableColumns : List TableColumn
  definedNames : List (Text × Text)

structure Workbook where
  worksheets : List Worksheet
  definedNames : List (Text × Text)

/- A token, and whether its subtype is `RANGE`. -/
structure Token where
  value : Text
  range : Bool

section Rename
variable (tokenizer : Text → List Token) (casefold quoteSheetname : Text → Text)

/-- `rewrite_range_tokens` -/
def rewriteRangeTokens (text : Text) (callback : Text → Text) : Text :=
  let starts:=text.head? = some '='
  let tokens:=tokenizer (if starts then text else '=' :: text)
  let rewritten:=tokens.flatMap fun token => if token.range then callback token.value else token.value
  if starts then '=' :: rewritten else rewritten

/-- The `token` of `rename_sheet`. -/
def renameToken (old actual value : Text) : Text :=
  match qualifiedMatch value with
  | none => value
  | some (qualifier,coordinate) =>
    let name:=qualifierName qualifier
    if '[' ∈ name ∨ ']' ∈ name then value
    else
      let endpoints:=name.splitOn ':'
      let replaced:=endpoints.map fun endpoint => if casefold endpoint=casefold old then actual else endpoint
      if replaced=endpoints then value else quoteSheetname ([':'].intercalate replaced) ++ '!' :: coordinate

/- An empty text is not rewritten. -/
def rewriteFormula (old actual text : Text) : Text :=
  if text=[] then text else rewriteRangeTokens tokenizer text (renameToken casefold quoteSheetname old actual)

section Places
variable (rewrite : Text → Text)

def containsRef (text : Text) : Bool := decide ("#REF!".toList <:+: text)

/- A reference of a data table that is lost is marked as deleted. -/
def rewriteInput (reference : Option Text) (deleted : Bool) : Option Text × Bool :=
  match reference with
  | none => (none,deleted)
  | some text => if containsRef (rewrite text) then (none,true) else (some (rewrite text),deleted)

def rewriteValue : CellValue → CellValue
  | .text value => if value.head? = some '=' then .text (rewrite value) else .text value
  | .array text => .array (rewrite text)
  | .dataTable r1 r2 del1 del2 _ =>
    let first:=rewriteInput rewrite r1 del1
    let second:=rewriteInput rewrite r2 del2
    .dataTable first.1 second.1 first.2 second.2 true
  | .other => .other

def rewriteTarget (target : Text) : Text :=
  match target with
  | '#' :: rest => '#' :: rewrite rest
  | target => target

def rewriteCell (cell : Cell) : Cell :=
  ⟨rewriteValue rewrite cell.value,cell.location.map rewrite,cell.target.map (rewriteTarget rewrite)⟩

def rewriteColumn (column : TableColumn) : TableColumn :=
  ⟨column.calculatedColumnFormula.map rewrite,column.totalsRowFormula.map rewrite⟩

def rewriteNames (names : List (Text × Text)) : List (Text × Text) := names.map fun (name,text) => (name,rewrite text)

def rewriteSheet (sheet : Worksheet) : Worksheet :=
  { sheet with
    cells := sheet.cells.map (rewriteCell rewrite)
    tableColumns := sheet.tableColumns.map (rewriteColumn rewrite)
    definedNames := rewriteNames rewrite sheet.definedNames }

def rewriteWorkbookReferences (wb : Workbook) : Workbook :=
  ⟨wb.worksheets.map (rewriteSheet rewrite),rewriteNames rewrite wb.definedNames⟩

end Places

def Workbook.titles (wb : Workbook) : List SheetName := wb.worksheets.map Worksheet.title

/-- `rename_sheet`, for a new name that the setter of a title accepts. -/
def renameSheet (wb : Workbook) (old new : SheetName) : Except String Workbook :=
  if old ∉ wb.titles then .error s!"Worksheet {String.ofList old.chars} does not exist."
  else if wb.titles.any fun title => title≠old && casefold title.chars=casefold new.chars then
    .error s!"A worksheet named {String.ofList new.chars} already exists"
  else
    let titled : Workbook :=
      { wb with worksheets := wb.worksheets.map fun sheet => if sheet.title=old then { sheet with title := new } else sheet }
    .ok (rewriteWorkbookReferences (rewriteFormula tokenizer casefold quoteSheetname old.chars new.chars) titled)

def CellValue.formulas : CellValue → List Text
  | text value => if value.head? = some '=' then [value] else []
  | array formula => [formula]
  | dataTable r1 r2 _ _ _ => r1.toList++r2.toList
  | other => []

def targetFormula : Text → List Text
  | '#' :: rest => [rest]
  | _ => []

def Cell.formulas (cell : Cell) : List Text :=
  cell.value.formulas++cell.location.toList++cell.target.toList.flatMap targetFormula

def Worksheet.formulas (sheet : Worksheet) : List Text :=
  sheet.cells.flatMap Cell.formulas ++
    sheet.tableColumns.flatMap (fun column => column.calculatedColumnFormula.toList++column.totalsRowFormula.toList) ++
    sheet.definedNames.map Prod.snd

def Workbook.formulas (wb : Workbook) : List Text := wb.worksheets.flatMap Worksheet.formulas++wb.definedNames.map Prod.snd

def CellValue.inputs : CellValue → List Text
  | dataTable r1 r2 _ _ _ => r1.toList++r2.toList
  | _ => []

def Workbook.inputs (wb : Workbook) : List Text :=
  wb.worksheets.flatMap fun sheet => sheet.cells.flatMap fun cell => cell.value.inputs

/-- The sheets in two operands that otherwise are the same are related. The quotes may differ. -/
inductive RelatedPart (R : SheetName → SheetName → Prop) : Part → Part → Prop
  | unqualified (coordinate : Coordinate) : RelatedPart R ⟨none,coordinate⟩ ⟨none,coordinate⟩
  | external (qualifier : Qualifier) (coordinate : Coordinate) :
      qualifier.sheets=none → RelatedPart R ⟨some qualifier,coordinate⟩ ⟨some qualifier,coordinate⟩
  | named {qualifier qualifier' : Qualifier} {names names' : SheetNames} (coordinate : Coordinate) :
      qualifier.sheets=some names → qualifier'.sheets=some names' → List.Forall₂ R names.list names'.list →
        RelatedPart R ⟨some qualifier,coordinate⟩ ⟨some qualifier',coordinate⟩

structure Related (R : SheetName → SheetName → Prop) (operand operand' : Operand) : Prop where
  head : RelatedPart R operand.head operand'.head
  tail : List.Forall₂ (RelatedPart R) operand.tail operand'.tail

def renamed (old new name : SheetName) : SheetName := if casefold name.chars=casefold old.chars then new else name

/-- The text is the operand with each name of the sheet replaced, and the operand itself where the sheet is not named. -/
def Renamed (old new : SheetName) (operand : Operand) (text : Text) : Prop :=
  (∃ operand', Operand.text operand'=text ∧ Related (fun name name' => name'=renamed casefold old new name) operand operand') ∧
    ((∀ name ∈ operand.names, casefold name.chars≠casefold old.chars) → text=operand.text)

def resolved (titles : List SheetName) (name : SheetName) : Option ℕ :=
  titles.findIdx? fun title => casefold title.chars=casefold name.chars

/-- The text denotes what the operand denotes. -/
def Restored (titles : List SheetName) (operand : Operand) (text : Text) : Prop :=
  ∃ operand', Operand.text operand'=text ∧
    Related (fun name name' => resolved casefold titles name'=resolved casefold titles name) operand operand'

def misread (operand : Operand) : List Text :=
  match operand.head.qualifier with
  | some _ => []
  | none => (qualifiedMatch operand.text).elim [] fun (qualifier,_) => qualifier.splitOn ':'

/-- Only the first qualifier names the sheet, nothing is taken for a qualifier that is none, and the new name is not that of
a sheet that is missing. -/
structure Spared (old new : SheetName) (operand : Operand) : Prop where
  tail : ∀ part ∈ operand.tail, ∀ name ∈ part.names, casefold name.chars=casefold old.chars → name=new
  misread : ∀ text ∈ misread operand, (casefold text=casefold old.chars → text=new.chars) ∧
    (casefold text=casefold new.chars → text=old.chars)
  missing : ∀ name ∈ operand.head.names, casefold name.chars=casefold new.chars → casefold name.chars=casefold old.chars

end Rename

end Qubicl.Skills.Xlsx
