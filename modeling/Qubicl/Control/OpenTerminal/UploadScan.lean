import Qubicl.Control.OpenTerminal.Uploads

/-!
# The scan of an upload

What one pass of the scan does with a part, and with it what a whole request comes to.
-/

namespace Qubicl.Control.OpenTerminal
open Foundation List Option

section
variable {body x y : List UInt8} {cursor : ℕ}

theorem drop_of (h : body.drop cursor=x++y) {n : ℕ} (hn : n=x.length) : body.drop (cursor+n)=y := by
  rw [← drop_drop,h,hn,drop_left]

theorem slice_of (h : body.drop cursor=x++y) {n : ℕ} (hn : n=x.length) : slice body cursor (cursor+n)=x := by
  unfold slice
  rw [drop_take,h,hn,Nat.add_sub_cancel_left,take_left]

theorem indexFrom_of (pattern body : List UInt8) (cursor n : ℕ) (h : indexOf pattern (body.drop cursor)=some n) :
    indexFrom pattern body cursor=some (cursor+n) := by
  unfold indexFrom
  rw [h,map_some]

end

theorem indexOf_headers {lines : List (List Char)} (hne : lines≠[]) (hlin : ∀ line ∈ lines, line≠[] ∧ '\r' ∉ line)
    (rest : List UInt8) :
    indexOf (CRLF++CRLF) (Utf8.encodeChars (joinLines lines)++(CRLF++CRLF++rest)) =
      some (Utf8.encodeChars (joinLines lines)).length := by
  have hpla : ∀ line ∈ lines, 13 ∉ Utf8.encodeChars line := fun line hlie =>
    byte_of_char (c := '\r') (by decide) (by decide) (hlin line hlie).2
  induction lines with
  | nil => exact absurd rfl hne
  | cons line lines ih =>
    have hlie:=hpla line mem_cons_self
    cases lines with
    | nil =>
      show indexOf (13::[10,13,10]) _=_
      rw [joinLines,indexOf_skip_of_not_mem hlie]
      have hat : indexOf (13::[10,13,10]) (CRLF++CRLF++rest)=some 0 := indexOf_prefix (by simp)
      rw [hat]
      simp
    | cons next lines =>
      have hnex:=ih (by simp) (fun other hoth => hlin other (mem_cons_of_mem _ hoth))
        (fun other hoth => hpla other (mem_cons_of_mem _ hoth))
      have hspl : Utf8.encodeChars (joinLines (line::next::lines)) =
          Utf8.encodeChars line++(13::10::Utf8.encodeChars (joinLines (next::lines))) := by
        rw [joinLines_cons _ (by simp),Utf8.encodeChars_append]
        rfl
      obtain ⟨b,bytes,hbyt,hb⟩ : ∃ b bytes, Utf8.encodeChars (joinLines (next::lines))=b::bytes ∧ b≠13 := by
        obtain ⟨c,cs,hcs⟩ := exists_cons_of_ne_nil (hlin next (by simp)).1
        obtain ⟨tail,htai⟩ : ∃ tail, joinLines (next::lines)=next++tail := by
          cases lines with
          | nil => exact ⟨[],(append_nil _).symm⟩
          | cons other lines => exact ⟨_,joinLines_cons _ (by simp)⟩
        obtain ⟨b,bytes,hb⟩ := exists_cons_of_ne_nil (String.utf8EncodeChar_ne_nil (c := c))
        have hwho : Utf8.encodeChars next=b::(bytes++Utf8.encodeChars cs) := by
          rw [hcs,Utf8.encodeChars,flatMap_cons,hb]
          rfl
        refine ⟨b,bytes++Utf8.encodeChars cs++Utf8.encodeChars tail,?_,?_⟩
        · rw [htai,Utf8.encodeChars_append,hwho]
          rfl
        · rintro rfl
          exact hpla next (by simp) (by rw [hwho]; exact mem_cons_self)
      have hski : indexOf (13::[10,13,10]) (13::10::(Utf8.encodeChars (joinLines (next::lines))++(CRLF++CRLF++rest))) =
          some ((Utf8.encodeChars (joinLines (next::lines))).length+2) := by
        have hnot : ¬ (13::[10,13,10]).isPrefixOf
            (13::10::(Utf8.encodeChars (joinLines (next::lines))++(CRLF++CRLF++rest)))=true := by
          rw [hbyt]
          simp [Ne.symm hb]
        have hnex' : indexOf (13::[10,13,10]) (Utf8.encodeChars (joinLines (next::lines))++(CRLF++CRLF++rest)) =
          some (Utf8.encodeChars (joinLines (next::lines))).length := hnex
        rw [indexOf,if_neg hnot,indexOf,if_neg (by simp),hnex']
        rfl
      show indexOf (13::[10,13,10]) _=_
      rw [hspl,append_assoc,indexOf_skip_of_not_mem hlie]
      have hcon : (13::10::Utf8.encodeChars (joinLines (next::lines)))++(CRLF++CRLF++rest) =
          13::10::(Utf8.encodeChars (joinLines (next::lines))++(CRLF++CRLF++rest)) := rfl
      rw [hcon,hski,map_some]
      congr 1
      simp only [length_append,length_cons]
      omega

section
variable {boundary : String} {part : Part} {body : List UInt8} {cursor : ℕ}

theorem disposition_plain (h : part.WellFormed boundary) : '\r' ∉ part.disposition := by
  have hlet : ∀ {text pattern : List Char}, text.map Char.toLower=pattern → '\r' ∉ pattern → '\r' ∉ text := by
    intro text pattern htex hpat hmem
    have hlow : Char.toLower '\r' ∈ text.map Char.toLower := mem_map_of_mem hmem
    rw [htex] at hlow
    exact hpat hlow
  intro hmem
  simp only [Part.disposition,mem_append,mem_cons,mem_flatMap] at hmem
  rcases hmem with ((hmem | hmem | hmem) | hmem) | ⟨p,-,hmem⟩
  · exact hlet h.label (by decide) hmem
  · exact absurd hmem (by decide)
  · exact absurd (h.blanks _ hmem) (by decide)
  · exact hlet h.formData (by decide) hmem
  · exact (p.text_plain _ hmem).1 rfl

theorem headers_lines (h : part.WellFormed boundary) : ∀ line ∈ part.headers, line≠[] ∧ '\r' ∉ line := by
  intro line hline
  have hoth : ∀ other, OtherHeader other → other≠[] ∧ '\r' ∉ other := by
    intro other hoth
    refine ⟨hoth.1,fun hmem => ?_⟩
    have hter:=hoth.2.1 _ hmem
    exact absurd hter (by decide)
  rcases mem_append.1 hline with hbef | hline
  · exact hoth line (h.others line (mem_append_left _ hbef))
  · rcases mem_cons.1 hline with rfl | hafter
    · exact ⟨by simp [Part.disposition],disposition_plain h⟩
    · exact hoth line (h.others line (mem_append_right _ hafter))

theorem scan_part (h : part.WellFormed boundary) (hcle : part.Unambiguous) (hbou : '\r' ∉ boundary.toList)
    {rest : List UInt8} (hcur : body.drop cursor=encodePart boundary part++(delimiterOf boundary++rest)) (passes : ℕ) :
    scan (delimiterOf boundary) (partEndOf boundary) body (passes+1) cursor =
      if part.isFile then some (acceptFile part.filename part.body)
      else scan (delimiterOf boundary) (partEndOf boundary) body passes (cursor+(encodePart boundary part).length) := by
  have hcr:=delimiterOf_plain hbou
  have hsea : partEndOf boundary=13::(10::delimiterOf boundary) := partEndOf_eq boundary
  -- the places that the pass visits, one behind the other
  have hdel : body.drop cursor=delimiterOf boundary++(CRLF++(Utf8.encodeChars (joinLines part.headers) ++
      (CRLF++CRLF++(part.body++(partEndOf boundary++rest))))) := by
    rw [hcur,partEndOf_eq]
    simp [encodePart]
  have hlin:=drop_of hdel rfl
  have hhea:=drop_of (n := 2) hlin rfl
  have hemp:=drop_of hhea rfl
  have hbod:=drop_of (n := 4) hemp rfl
  have hend:=drop_of hbod rfl
  have hnotLast : slice body (cursor+(delimiterOf boundary).length) (cursor+(delimiterOf boundary).length+2)=CRLF :=
    slice_of hlin rfl
  have hheadersEnd:=indexFrom_of (CRLF++CRLF) body (cursor+(delimiterOf boundary).length+2) _
    (by rw [hhea]; exact indexOf_headers (by simp [Part.headers]) (headers_lines h) _)
  have hsto:=indexFrom_of (partEndOf boundary) body
    (cursor+(delimiterOf boundary).length+2+(Utf8.encodeChars (joinLines part.headers)).length+4)
    part.body.length (by
      rw [hbod,hsea]
      refine indexOf_append ?_ ?_
      · rw [mem_cons,not_or]
        exact ⟨by decide,hcr⟩
      · rw [← hsea]
        exact h.body)
  have hnex : cursor+(delimiterOf boundary).length+2+(Utf8.encodeChars (joinLines part.headers)).length+4 +
      part.body.length+2=cursor+(encodePart boundary part).length := by
    have hlen : CRLF.length=2 := rfl
    simp only [encodePart,length_append,hlen]
    omega
  have hdec : (Utf8.decode (Utf8.encodeChars (joinLines part.headers))).toList=joinLines part.headers := by
    have hrou:=Utf8.decode_encode (String.ofList (joinLines part.headers))
    rw [Utf8.encode,String.toList_ofList] at hrou
    rw [hrou,String.toList_ofList]
  rw [scan]
  simp only [hnotLast]
  rw [if_neg (by decide),if_pos trivial,hheadersEnd]
  simp only
  rw [if_neg (by have := h.headers; omega),hsto]
  simp only
  rw [slice_of hhea rfl,slice_of hbod rfl,hdec,dispositionIn_headers h,getD_some,hnex]
  exact isFile_headers h hcle (fun filename => some (acceptFile filename part.body)) _

theorem scan_closing {rest : List UInt8} (hcur : body.drop cursor=delimiterOf boundary++([45,45]++rest)) (passes : ℕ) :
    scan (delimiterOf boundary) (partEndOf boundary) body (passes+1) cursor=some (.error noFileField) := by
  have hlas : slice body (cursor+(delimiterOf boundary).length) (cursor+(delimiterOf boundary).length+2)=[45,45] :=
    slice_of (drop_of hcur rfl) rfl
  rw [scan]
  simp only [hlas,if_true]

end

section
variable {boundary : String} {body : List UInt8}

theorem encodeParts_delimiter (boundary : String) (parts : List Part) (epilogue : List UInt8) :
    ∃ rest, encodeParts boundary parts epilogue=delimiterOf boundary++rest := by
  unfold encodeParts
  cases parts with
  | nil => exact ⟨[45,45]++epilogue,by simp⟩
  | cons part parts =>
    rw [flatMap_cons,encodePart]
    exact ⟨_,by simp only [append_assoc]; rfl⟩

theorem scan_parts (hbou : '\r' ∉ boundary.toList) {parts : List Part} (hpar : ∀ part ∈ parts, part.WellFormed boundary)
    (hcle : ∀ part ∈ parts, part.Unambiguous) {epilogue : List UInt8} {cursor passes : ℕ}
    (hcur : body.drop cursor=encodeParts boundary parts epilogue) (hpas : parts.length<passes) :
    scan (delimiterOf boundary) (partEndOf boundary) body passes cursor =
      some (match parts.find? Part.isFile with
        | none => .error noFileField
        | some part => acceptFile part.filename part.body) := by
  induction parts generalizing cursor passes with
  | nil =>
    obtain ⟨passes,rfl⟩ := Nat.exists_eq_succ_of_ne_zero (by omega : passes≠0)
    have hclo : body.drop cursor=delimiterOf boundary++([45,45]++epilogue) := by
      rw [hcur]
      simp [encodeParts]
    exact scan_closing hclo passes
  | cons part parts ih =>
    obtain ⟨passes,rfl⟩ := Nat.exists_eq_succ_of_ne_zero (by omega : passes≠0)
    obtain ⟨rest,hres⟩ := encodeParts_delimiter boundary parts epilogue
    have hspl : encodeParts boundary (part::parts) epilogue=encodePart boundary part++encodeParts boundary parts epilogue := by
      simp [encodeParts,flatMap_cons]
    rw [hspl] at hcur
    have hher : body.drop cursor=encodePart boundary part++(delimiterOf boundary++rest) := by rw [hcur,hres]
    rw [scan_part (hpar part mem_cons_self) (hcle part mem_cons_self) hbou hher,find?_cons]
    cases part.isFile with
    | true => rfl
    | false =>
      rw [if_neg (by simp)]
      exact ih (fun other hoth => hpar other (mem_cons_of_mem _ hoth))
        (fun other hoth => hcle other (mem_cons_of_mem _ hoth)) (drop_of hcur rfl)
        (by simp only [length_cons] at hpas; omega)

theorem length_le_encodeParts (parts : List Part) (epilogue : List UInt8) :
    parts.length≤(encodeParts boundary parts epilogue).length := by
  induction parts with
  | nil => simp
  | cons part parts ih =>
    have hpos:=length_pos_iff.2 (delimiterOf_ne_nil boundary)
    simp only [encodeParts,encodePart,flatMap_cons,length_append,length_cons] at ih ⊢
    omega

theorem scanBody_encodeParts (hbou : '\r' ∉ boundary.toList) {parts : List Part}
    (hpar : ∀ part ∈ parts, part.WellFormed boundary) (hcle : ∀ part ∈ parts, part.Unambiguous) (epilogue : List UInt8) :
    scanBody boundary (encodeParts boundary parts epilogue) =
      some (match parts.find? Part.isFile with
        | none => .error noFileField
        | some part => acceptFile part.filename part.body) := by
  obtain ⟨rest,hres⟩ := encodeParts_delimiter boundary parts epilogue
  have hfir : indexOf (delimiterOf boundary) (encodeParts boundary parts epilogue)=some 0 := by
    rw [hres]
    exact indexOf_prefix (delimiterOf_ne_nil boundary)
  unfold scanBody
  rw [hfir]
  exact scan_parts hbou hpar hcle rfl (Nat.lt_succ_of_le (length_le_encodeParts parts epilogue))

end

section
variable {delimiter partEnd body : List UInt8}

theorem indexFrom_bounds {pattern : List UInt8} {start i : ℕ} (h : indexFrom pattern body start=some i) :
    start ≤ i ∧ i<body.length := by
  unfold indexFrom at h
  obtain ⟨n,hn,rfl⟩ := map_eq_some_iff.1 h
  have hlt:=indexOf_le hn
  rw [length_drop] at hlt
  omega

/-- Every pass that is not the last moves the cursor, so that the passes are enough. -/
theorem scan_isSome (passes cursor : ℕ) (hpas : 0<passes) (h : body.length<passes+cursor) :
    (scan delimiter partEnd body passes cursor).isSome=true := by
  induction passes generalizing cursor with
  | zero => omega
  | succ passes ih =>
    rw [scan]
    simp only
    split
    · rfl
    · generalize hsta : (if slice body (cursor+delimiter.length) (cursor+delimiter.length+2)=CRLF then
        cursor+delimiter.length+2 else cursor+delimiter.length)=start
      have hcur : cursor ≤ start := by
        split_ifs at hsta <;> omega
      split
      · rfl
      · rename_i headersEnd hhea
        split
        · rfl
        · split
          · rfl
          · rename_i stop hsto
            have hbef:=indexFrom_bounds hhea
            have haft:=indexFrom_bounds hsto
            have hnex:=ih (stop+2) (by omega) (by omega)
            split
            · split
              · rfl
              · exact hnex
            · exact hnex

theorem readMultipartFile_isSome (contentType : Option String) (chunks : List (List UInt8)) :
    (readMultipartFile contentType chunks).isSome=true := by
  unfold readMultipartFile
  split
  · rfl
  · split_ifs
    · rfl
    · split
      · rfl
      · unfold scanBody
        split
        · rfl
        · exact scan_isSome _ _ (by omega) (by omega)

end

theorem readBody_eq (maximum : ℕ) (chunks : List (List UInt8)) (bytes : ℕ) (h : bytes ≤ maximum) :
    readBody maximum bytes chunks =
      if bytes+chunks.flatten.length ≤ maximum then .ok chunks.flatten else .error (requestTooLarge maximum) := by
  induction chunks generalizing bytes with
  | nil => simp [readBody,h]
  | cons chunk chunks ih =>
    rw [readBody,flatten_cons,length_append]
    by_cases hlar : bytes+chunk.length > maximum
    · rw [if_pos hlar,if_neg (by omega)]
    · rw [if_neg hlar,ih _ (by omega)]
      by_cases hres : bytes+chunk.length+chunks.flatten.length ≤ maximum
      · rw [if_pos hres,if_pos (by omega)]
        rfl
      · rw [if_neg hres,if_neg (by omega)]
        rfl

variable {text value : List Char}

theorem boundaryValue_subset (h : boundaryValue text=some value) : ∀ c ∈ value, c ∈ text := by
  unfold boundaryValue at h
  split at h
  · rename_i quoted hquo
    obtain rfl := Option.some.inj h
    obtain ⟨rest,hres,hval⟩ := bind_eq_some_iff.1 hquo
    obtain ⟨start,rfl,-⟩ := afterLetters_eq_some hres
    obtain ⟨-,htak⟩ := ite_none_right_eq_some.1 hval
    obtain rfl := Option.some.inj htak
    intro c hc
    exact mem_append_right _ ((takeWhile_sublist _).subset hc)
  · obtain ⟨-,htak⟩ := ite_none_right_eq_some.1 h
    obtain rfl := Option.some.inj htak
    exact fun c hc => (takeWhile_sublist _).subset hc

theorem lastBoundary_subset {previous : Char} (h : lastBoundary previous text=some value) :
    ∀ c ∈ value, c ∈ text := by
  induction text generalizing previous with
  | nil => cases h
  | cons d text ih =>
    rw [lastBoundary] at h
    split at h
    · rename_i found hfou
      obtain rfl := Option.some.inj h
      split_ifs at hfou
      exact fun c hc => mem_cons_of_mem _ (ih hfou c hc)
    · split_ifs at h
      obtain ⟨rest,hres,hval⟩ := bind_eq_some_iff.1 h
      obtain ⟨start,hspl,-⟩ := afterLetters_eq_some hres
      intro c hc
      rw [hspl]
      exact mem_append_right _ (boundaryValue_subset hval c hc)

theorem boundaryOf_subset {contentType boundary : String} (h : boundaryOf contentType=some boundary) :
    ∀ c ∈ boundary.toList, c ∈ contentType.toList := by
  unfold boundaryOf at h
  split at h
  · rename_i text htex
    obtain ⟨value,hval,rfl⟩ := map_eq_some_iff.1 h
    obtain ⟨rest,hres,hdro⟩ := map_eq_some_iff.1 htex
    obtain ⟨start,hspl,-⟩ := afterLetters_eq_some hres
    intro c hc
    rw [String.toList_ofList] at hc
    rw [hspl]
    refine mem_append_right _ ((dropWhile_sublist Number.isSpace).subset ?_)
    rw [hdro]
    exact mem_cons_of_mem _ (lastBoundary_subset hval c hc)
  · cases h

/-- The value of a header, as the HTTP parser lets it through. -/
structure HeaderValue where
  text : String
  plain : ∀ c ∈ text.toList, c ≠ '\r' ∧ c ≠ '\n'

/-- Every request ends in a file or an error. A request of well-formed parts ends in its first file, unless a limit or the
last component of the file's name speaks against it. -/
theorem upload_read : (∀ contentType chunks, (readMultipartFile contentType chunks).isSome=true) ∧
    ∀ (contentType : HeaderValue) (boundary : String), boundaryOf contentType.text=some boundary →
      utf16Length boundary≤200 →
      ∀ (parts : List Part) (epilogue : List UInt8), (∀ part ∈ parts, part.WellFormed boundary ∧ part.Unambiguous) →
      ∀ chunks : List (List UInt8), chunks.flatten=encodeParts boundary parts epilogue →
        (MAX_REQUEST_BYTES<chunks.flatten.length →
          readMultipartFile (some contentType.text) chunks=some (.error (requestTooLarge MAX_REQUEST_BYTES))) ∧
        (chunks.flatten.length≤MAX_REQUEST_BYTES →
          (parts.find? Part.isFile=none → readMultipartFile (some contentType.text) chunks=some (.error noFileField)) ∧
          ∀ part, parts.find? Part.isFile=some part →
            (String.ofList (safeName part.filename) ∈ ["",".",".."] →
              readMultipartFile (some contentType.text) chunks=some (.error invalidFilename)) ∧
            (String.ofList (safeName part.filename) ∉ ["",".",".."] →
              (MAX_UPLOAD_BYTES<part.body.length →
                readMultipartFile (some contentType.text) chunks=some (.error fileTooLarge)) ∧
              (part.body.length≤MAX_UPLOAD_BYTES →
                readMultipartFile (some contentType.text) chunks =
                  some (.ok { filename := String.ofList (safeName part.filename), data := part.body })))) := by
  refine ⟨readMultipartFile_isSome,?_⟩
  intro contentType boundary hbou hsho parts epilogue hpar chunks hchu
  have hpla : '\r' ∉ boundary.toList := fun hmem =>
    (contentType.plain _ (boundaryOf_subset hbou _ hmem)).1 rfl
  have hbod:=readBody_eq MAX_REQUEST_BYTES chunks 0 (Nat.zero_le _)
  rw [Nat.zero_add] at hbod
  have hrea:=readMultipartFile_eq hbou hsho chunks
  have hsca:=scanBody_encodeParts hpla (fun part hpat => (hpar part hpat).1) (fun part hpat => (hpar part hpat).2)
    epilogue
  constructor
  · intro hlar
    rw [hrea,hbod,if_neg (by omega)]
  · intro hsma
    rw [if_pos hsma] at hbod
    rw [hrea,hbod]
    simp only
    rw [hchu,hsca]
    constructor
    · intro hnon
      rw [hnon]
    · intro part hpat
      rw [hpat]
      simp only [acceptFile,mem_cons,not_mem_nil,or_false]
      refine ⟨fun hnam => by rw [if_pos hnam],fun hnam => ?_⟩
      rw [if_neg hnam]
      exact ⟨fun hbig => by rw [if_pos hbig],fun hfit => by rw [if_neg (by omega)]⟩

def exampleParameter (key value : String) (hkey : ∀ c ∈ key.toList, isToken c=true)
    (hvalue : ∀ c ∈ value.toList, c ≠ '"' ∧ c ≠ '\r' ∧ c ≠ '\n') : Parameter :=
  ⟨[' '],key.toList,value.toList,by simp [isBlank],hkey,hvalue⟩

def examplePart (filename : String) (h : ∀ c ∈ filename.toList, c ≠ '"' ∧ c ≠ '\r' ∧ c ≠ '\n') : Part where
  before := []
  label := "Content-Disposition".toList
  blanks := [' ']
  formData := "form-data".toList
  parameters := [exampleParameter "name" "file" (forall_chars (by decide)) (forall_chars (by decide)),
    exampleParameter "filename" filename (forall_chars (by decide)) h]
  after := []
  body := [104,105]

theorem examplePart_wellFormed (filename : String) (h : ∀ c ∈ filename.toList, c ≠ '"' ∧ c ≠ '\r' ∧ c ≠ '\n')
    (hhea : (Utf8.encodeChars (joinLines (examplePart filename h).headers)).length≤16384) :
    (examplePart filename h).WellFormed "x" := by
  refine ⟨by simp [examplePart],by simp only [examplePart]; decide,by simp [examplePart,isBlank],
    by simp only [examplePart]; decide,by simp [examplePart],?_,hhea,?_⟩
  · have hkey : (["name","filename"].map fun key => key.toList.map Char.toLower).Nodup := by decide
    exact hkey
  · simp only [examplePart]
    decide

def exampleUp : Part := examplePart ".." (forall_chars (by decide))

def exampleNote : Part := examplePart "notes/a.txt" (forall_chars (by decide))

/-- A file whose name is the parent directory is refused, although it is a file. -/
theorem parent_directory_refused : exampleUp.WellFormed "x" ∧ exampleUp.isFile=true ∧
    readMultipartFile (some "multipart/form-data; boundary=x") [encodeParts "x" [exampleUp] []] =
      some (.error invalidFilename) :=
  ⟨examplePart_wellFormed _ _ (by decide),by decide,by decide⟩

theorem upload_read_note :
    readMultipartFile (some "multipart/form-data; boundary=x") [encodeParts "x" [exampleNote] []] =
      some (.ok { filename := "a.txt", data := [104,105] }) := by
  have hrea:=(upload_read.2 ⟨"multipart/form-data; boundary=x",forall_chars (by decide)⟩ "x" (by decide) (by decide)
    [exampleNote] []
    (by
      intro part hpar
      obtain rfl := mem_singleton.1 hpar
      exact ⟨examplePart_wellFormed _ _ (by decide),by decide⟩)
    [encodeParts "x" [exampleNote] []] (by simp)).2 (by decide)
  have hnam : String.ofList (safeName exampleNote.filename) = "a.txt" := by decide
  have hfil : exampleNote.isFile=true := by decide
  have hdat:=((hrea.2 exampleNote (by rw [find?_cons,hfil])).2 (by rw [hnam]; decide)).2 (by decide)
  rw [hnam] at hdat
  exact hdat

end Qubicl.Control.OpenTerminal
