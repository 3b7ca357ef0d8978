import Qubicl.Foundation.Path

/-!
# Sheet qualifiers (skills/core/xlsx/scripts/xlsx_edit.py:141-172)

How an operand of a formula names sheets: by a name, by the two ends of a range of sheets, or in another workbook, with quotes
or without, in front of a reference or on either side of the range operator. The pattern of the script reads the first
qualifier only.
-/

namespace Qubicl.Skills.Xlsx
open Foundation List

abbrev Text := List Char

def doubled : Text → Text
  | [] => []
  | c::rest => if c = '\'' then '\'' :: '\'' :: doubled rest else c::doubled rest

def undoubled : Text → Text
  | '\'' :: '\'' :: rest => '\'' :: undoubled rest
  | c::rest => c::undoubled rest
  | [] => []

def quoted (text : Text) : Text := '\'' :: (doubled text++['\''])

theorem undoubled_doubled (text : Text) : undoubled (doubled text)=text := by
  induction text with
  | nil => rfl
  | cons c rest ih =>
    unfold doubled
    split
    next hquo =>
      subst hquo
      show '\'' :: undoubled (doubled rest)=_
      rw [ih]
    next hquo =>
      rw [undoubled.eq_2 c (doubled rest) (fun more h _ => hquo h),ih]

/- The rest of a quoted qualifier, up to its closing quote, and what follows it. -/
def untilQuote : Text → Option (Text × Text)
  | [] => none
  | '\'' :: '\'' :: rest => (untilQuote rest).map fun (content,after) => ('\'' :: '\'' :: content,after)
  | '\'' :: rest => some ([],rest)
  | c::rest => (untilQuote rest).map fun (content,after) => (c::content,after)

def afterMark : Text → Option Text
  | '!' :: rest => if '\n' ∈ rest then none else some rest
  | _ => none

def quotedMatch : Text → Option (Text × Text)
  | '\'' :: rest =>
    (untilQuote rest).bind fun (content,after) =>
      if content=[] then none else (afterMark after).map ('\'' :: (content++['\'']),·)
  | _ => none

def unquotedChar (c : Char) : Bool := c ≠ '!' && c ≠ '[' && c ≠ ']'

def unquotedMatch (value : Text) : Option (Text × Text) :=
  let qualifier:=value.takeWhile unquotedChar
  if qualifier=[] then none else (afterMark (value.dropWhile unquotedChar)).map (qualifier,·)

/-- `re.fullmatch(r"('(?:[^']|'')+'|[^!\[\]]+)!(.*)", value)` -/
def qualifiedMatch (value : Text) : Option (Text × Text) := (quotedMatch value).orElse fun _ => unquotedMatch value

/- The name in a qualifier, without its quotes. -/
def qualifierName (qualifier : Text) : Text :=
  if qualifier.head? = some '\'' ∧ qualifier.getLast? = some '\'' then undoubled ((qualifier.drop 1).dropLast) else qualifier

structure SheetName where
  chars : Text
  nonempty : chars≠[]
  valid : ∀ c ∈ chars, c ∉ ":\\/?*[]\n".toList
  deriving DecidableEq

def SheetName.plain (name : SheetName) : Bool := name.chars.all fun c => c ≠ '\'' && c ≠ '!'

structure SheetNames where
  first : SheetName
  last : Option SheetName
  deriving DecidableEq

def SheetNames.list (names : SheetNames) : List SheetName := names.first::names.last.toList

def SheetNames.text (names : SheetNames) : Text := names.first.chars++names.last.elim [] fun last => ':' :: last.chars

def SheetNames.plain (names : SheetNames) : Bool := names.list.all SheetName.plain

inductive Qualifier
  | quoted (names : SheetNames)
  | unquoted (names : SheetNames) (plain : names.plain=true)
  | externalQuoted (content : Text) (external : '[' ∈ content) (valid : '\n' ∉ content)
  | externalUnquoted (content : Text) (valid : '\n' ∉ content)

def Qualifier.text : Qualifier → Text
  | quoted names => Xlsx.quoted names.text
  | unquoted names _ => names.text
  | externalQuoted content _ _ => Xlsx.quoted content
  | externalUnquoted content _ => '[' :: content

/- Sheets of other workbooks are not among them. -/
def Qualifier.sheets : Qualifier → Option SheetNames
  | quoted names => some names
  | unquoted names _ => some names
  | _ => none

def Qualifier.names (qualifier : Qualifier) : List SheetName := qualifier.sheets.elim [] SheetNames.list

/- Without a qualifier, an exclamation mark is in the brackets of a structured reference only. -/
structure Coordinate where
  chars : Text
  nonempty : chars≠[]
  valid : '\n' ∉ chars
  unqualified : '!' ∉ chars.takeWhile (· ≠ '[') ∧ chars.head? ≠ some '\''

structure Part where
  qualifier : Option Qualifier
  coordinate : Coordinate

def Part.text (part : Part) : Text :=
  part.qualifier.elim [] (fun qualifier => qualifier.text++['!'])++part.coordinate.chars

def Part.names (part : Part) : List SheetName := part.qualifier.elim [] Qualifier.names

structure Operand where
  head : Part
  tail : List Part

def tailText (parts : List Part) : Text := parts.flatMap fun part => ':' :: part.text

def Operand.text (operand : Operand) : Text := operand.head.text++tailText operand.tail

def Operand.names (operand : Operand) : List SheetName := operand.head.names++operand.tail.flatMap Part.names

theorem untilQuote_doubled (text rest : Text) : untilQuote (doubled text ++ '\'' :: '!' :: rest)=some (doubled text,'!' :: rest) := by
  induction text with
  | nil => rfl
  | cons c more ih =>
    unfold doubled
    split
    · show (untilQuote (doubled more ++ '\'' :: '!' :: rest)).map _=_
      rw [ih]
      rfl
    next hquo =>
      rw [cons_append,untilQuote.eq_4 _ _ (fun more h _ => hquo h) hquo,ih]
      rfl

theorem doubled_ne_nil {text : Text} (h : text≠[]) : doubled text≠[] := by
  cases text with
  | nil => exact absurd rfl h
  | cons c rest =>
    unfold doubled
    split
    · exact cons_ne_nil _ _
    · exact cons_ne_nil _ _

variable {rest qualifier : Text}

theorem afterMark_mark (h : '\n' ∉ rest) : afterMark ('!' :: rest)=some rest := if_neg h

theorem qualifiedMatch_quoted {content : Text} (hcon : content≠[]) (hres : '\n' ∉ rest) :
    qualifiedMatch (quoted content ++ '!' :: rest)=some (quoted content,rest) := by
  have hmat : quotedMatch (quoted content ++ '!' :: rest)=some (quoted content,rest) := by
    show (untilQuote ((doubled content++['\'']) ++ '!' :: rest)).bind _=_
    rw [append_assoc]
    show (untilQuote (doubled content ++ '\'' :: '!' :: rest)).bind _=_
    rw [untilQuote_doubled]
    show (if doubled content=[] then none else _)=_
    rw [if_neg (doubled_ne_nil hcon),afterMark_mark hres]
    rfl
  unfold qualifiedMatch
  rw [hmat]
  rfl

theorem quotedMatch_none {value : Text} (h : value.head? ≠ some '\'') : quotedMatch value=none := by
  unfold quotedMatch
  split
  · exact absurd rfl h
  · rfl

theorem qualifiedMatch_unquoted (hne : qualifier≠[]) (hhea : qualifier.head? ≠ some '\'')
    (hcha : ∀ c ∈ qualifier, unquotedChar c=true) (hres : '\n' ∉ rest) :
    qualifiedMatch (qualifier ++ '!' :: rest)=some (qualifier,rest) := by
  have htak : (qualifier ++ '!' :: rest).takeWhile unquotedChar=qualifier := by
    rw [takeWhile_append_of_pos hcha,takeWhile_cons_of_neg (by decide),append_nil]
  have hdro : (qualifier ++ '!' :: rest).dropWhile unquotedChar = '!' :: rest := by
    rw [dropWhile_append_of_pos hcha,dropWhile_cons_of_neg (by decide)]
  unfold qualifiedMatch
  rw [quotedMatch_none]
  swap
  · obtain ⟨c,more,rfl⟩ := exists_cons_of_ne_nil hne
    exact hhea
  show unquotedMatch (qualifier ++ '!' :: rest)=_
  unfold unquotedMatch
  rw [htak,hdro]
  show (if qualifier=[] then none else _)=_
  rw [if_neg hne,afterMark_mark hres]
  rfl

theorem SheetName.not_mem (name : SheetName) {c : Char} (hc : c ∈ ":\\/?*[]\n".toList) : c ∉ name.chars :=
  fun hmem => name.valid c hmem hc

theorem SheetNames.text_ne_nil (names : SheetNames) : names.text≠[] := by
  unfold SheetNames.text
  exact append_ne_nil_of_left_ne_nil names.first.nonempty _

theorem SheetNames.not_mem_text (names : SheetNames) {c : Char} (hc : c ∈ ":\\/?*[]\n".toList) (hcol : c ≠ ':') :
    c ∉ names.text := by
  intro hmem
  rcases mem_append.1 hmem with hfir | hlast
  · exact names.first.not_mem hc hfir
  · cases h : names.last with
    | none =>
      rw [h] at hlast
      cases hlast
    | some last =>
      rw [h] at hlast
      rcases mem_cons.1 hlast with heq | hin
      · exact hcol heq
      · exact last.not_mem hc hin

theorem splitOn_text (names : SheetNames) : names.text.splitOn ':' = names.list.map SheetName.chars := by
  have hcol : ∀ name : SheetName, ':' ∉ name.chars := fun name => name.not_mem (by decide)
  obtain ⟨first,last⟩ := names
  cases last with
  | none =>
    have hjoi:=@List.splitOn_intercalate _ [first.chars] _ _ ':' (by simpa using hcol first) (by simp)
    simpa [SheetNames.text,SheetNames.list] using hjoi
  | some last =>
    have hjoi:=@List.splitOn_intercalate _ [first.chars,last.chars] _ _ ':'
      (by simpa using ⟨hcol first,hcol last⟩) (by simp)
    simpa [SheetNames.text,SheetNames.list,List.intercalate] using hjoi

theorem plain_chars {names : SheetNames} (h : names.plain=true) :
    (∀ c ∈ names.text, unquotedChar c=true) ∧ names.text.head? ≠ some '\'' := by
  have hfir : names.first.plain=true := all_eq_true.1 h names.first mem_cons_self
  constructor
  · intro c hc
    have hbra : c ≠ '[' ∧ c ≠ ']' := by
      constructor
      · rintro rfl
        exact names.not_mem_text (by decide) (by decide) hc
      · rintro rfl
        exact names.not_mem_text (by decide) (by decide) hc
    have hmar : c ≠ '!' := by
      rintro rfl
      rcases mem_append.1 hc with hin | hin
      · exact absurd (all_eq_true.1 hfir '!' hin) (by decide)
      · cases hlas : names.last with
        | none =>
          rw [hlas] at hin
          cases hin
        | some last =>
          rw [hlas] at hin
          have hpla : last.plain=true := all_eq_true.1 h last (by
            unfold SheetNames.list
            rw [hlas]
            exact mem_cons_of_mem _ mem_cons_self)
          rcases mem_cons.1 hin with heq | hin
          · exact absurd heq (by decide)
          · exact absurd (all_eq_true.1 hpla '!' hin) (by decide)
    unfold unquotedChar
    simp [hbra.1,hbra.2,hmar]
  · intro hhea
    have hmem : '\'' ∈ names.first.chars := by
      unfold SheetNames.text at hhea
      obtain ⟨c,rest,hcha⟩ := exists_cons_of_ne_nil names.first.nonempty
      rw [hcha] at hhea ⊢
      have heq : c = '\'' := Option.some.inj hhea
      rw [heq]
      exact mem_cons_self
    exact absurd (all_eq_true.1 hfir '\'' hmem) (by decide)

theorem qualifierName_quoted (content : Text) : qualifierName (quoted content)=content := by
  unfold qualifierName
  rw [if_pos]
  · show undoubled ((doubled content++['\'']).dropLast)=_
    rw [dropLast_concat,undoubled_doubled]
  · exact ⟨rfl,by unfold quoted; rw [getLast?_cons,getLast?_concat]; rfl⟩

theorem qualifierName_unquoted (h : qualifier.head? ≠ some '\'') : qualifierName qualifier=qualifier :=
  if_neg fun hquo => h hquo.1

theorem not_newline_doubled {text : Text} (h : '\n' ∉ text) : '\n' ∉ doubled text := by
  induction text with
  | nil => exact h
  | cons c rest ih =>
    have hres:=ih (not_mem_of_not_mem_cons h)
    have hc:=ne_of_not_mem_cons h
    unfold doubled
    split
    · exact not_mem_cons_of_ne_of_not_mem (by decide) (not_mem_cons_of_ne_of_not_mem (by decide) hres)
    · exact not_mem_cons_of_ne_of_not_mem hc hres

theorem not_newline_quoted {text : Text} (h : '\n' ∉ text) : '\n' ∉ quoted text := by
  unfold quoted
  refine not_mem_cons_of_ne_of_not_mem (by decide) fun hmem => ?_
  rcases mem_append.1 hmem with hin | hin
  · exact not_newline_doubled h hin
  · exact absurd (mem_singleton.1 hin) (by decide)

theorem Qualifier.not_newline (qualifier : Qualifier) : '\n' ∉ qualifier.text := by
  cases qualifier with
  | quoted names => exact not_newline_quoted (names.not_mem_text (by decide) (by decide))
  | unquoted names plain => exact names.not_mem_text (by decide) (by decide)
  | externalQuoted content external valid => exact not_newline_quoted valid
  | externalUnquoted content valid => exact not_mem_cons_of_ne_of_not_mem (by decide) valid

theorem Part.not_newline (part : Part) : '\n' ∉ part.text := by
  unfold Part.text
  intro hmem
  rcases mem_append.1 hmem with hin | hin
  · cases h : part.qualifier with
    | none =>
      rw [h] at hin
      cases hin
    | some qualifier =>
      rw [h] at hin
      rcases mem_append.1 hin with hin | hin
      · exact qualifier.not_newline hin
      · exact absurd (mem_singleton.1 hin) (by decide)
  · exact part.coordinate.valid hin

theorem not_newline_tail (parts : List Part) : '\n' ∉ tailText parts := by
  intro hmem
  obtain ⟨part,-,hin⟩ := mem_flatMap.1 hmem
  rcases mem_cons.1 hin with heq | hin
  · exact absurd heq (by decide)
  · exact part.not_newline hin

theorem qualifiedMatch_text {qualifier : Qualifier} (h : ∀ content valid, qualifier≠.externalUnquoted content valid)
    (hres : '\n' ∉ rest) : qualifiedMatch (qualifier.text ++ '!' :: rest)=some (qualifier.text,rest) := by
  cases qualifier with
  | quoted names => exact qualifiedMatch_quoted names.text_ne_nil hres
  | unquoted names plain =>
    exact qualifiedMatch_unquoted names.text_ne_nil (plain_chars plain).2 (plain_chars plain).1 hres
  | externalQuoted content external valid => exact qualifiedMatch_quoted (ne_nil_of_mem external) hres
  | externalUnquoted content valid => exact absurd rfl (h content valid)

theorem qualifiedMatch_externalUnquoted (content rest : Text) : qualifiedMatch ('[' :: content ++ '!' :: rest)=none := rfl

end Qubicl.Skills.Xlsx
