import Qubicl.Control.Previews.FileLinks

/-!
# The path of a link

What a file's path becomes on the way from `publishFile` through three URL parsers to `serveFile`.
-/

namespace Qubicl.Control.Previews
open Foundation List

theorem encodeComponent_ne_empty {name : String} (h : name ≠ "") : Percent.encodeComponent name ≠ "" := by
  intro hemp
  have hrou:=Percent.decodeComponent_encodeComponent name
  have hnon : Percent.decodeComponent "" = some "" := by decide
  rw [hemp,hnon,Option.some.injEq] at hrou
  exact h hrou.symm

theorem slash_encodeComponent (name : String) : '/' ∉ (Percent.encodeComponent name).toList := by
  intro hmem
  have henc:=Percent.isEncoded_of_mem hmem
  revert henc
  decide

/- A name is read back unless it has a backslash. -/
theorem decodePreviewPart_encode {name : String} (h : Posix.Name name) :
    decodePreviewPart (Percent.encodeComponent name)=if '\\' ∈ name.toList then none else some name := by
  rw [decodePreviewPart,Percent.decodeComponent_encodeComponent]
  simp only [Option.bind_eq_bind,Option.bind_some,h.nonempty,h.dot,h.dots,h.slash,h.null,false_or,or_false]

theorem mapM_unless {α : Type} {p : α → Prop} [DecidablePred p] (items : List α) :
    items.mapM (fun item => if p item then none else some item)=if ∃ item ∈ items, p item then none else some items := by
  induction items with
  | nil => simp
  | cons item rest ih =>
    rw [mapM_cons,ih]
    by_cases hite : p item
    · have hsom : ∃ other ∈ item::rest, p other := ⟨item,mem_cons_self,hite⟩
      rw [if_pos hite,if_pos hsom]
      rfl
    · rw [if_neg hite]
      by_cases hres : ∃ other ∈ rest, p other
      · have hsom : ∃ other ∈ item::rest, p other := by
          obtain ⟨other,hother,hp⟩ := hres
          exact ⟨other,mem_cons_of_mem _ hother,hp⟩
        rw [if_pos hres,if_pos hsom]
        rfl
      · have hnon : ¬ ∃ other ∈ item::rest, p other := by
          rintro ⟨other,hother,hp⟩
          rcases mem_cons.1 hother with rfl | hother
          · exact hite hp
          · exact hres ⟨other,hother,hp⟩
        rw [if_neg hres,if_neg hnon]
        rfl

theorem mem_joinSlash {names : List String} {c : Char} (hc : c ≠ '/') :
    c ∈ (joinSlash names).toList ↔ ∃ name ∈ names, c ∈ name.toList := by
  rw [joinSlash_toList]
  induction names with
  | nil => simp [List.intercalate]
  | cons name rest ih =>
    cases rest with
    | nil => simp [intercalate_singleton]
    | cons next rest =>
      have hcon : (∃ other ∈ name::next::rest, c ∈ other.toList) ↔
          c ∈ name.toList ∨ ∃ other ∈ next::rest, c ∈ other.toList := exists_mem_cons_iff ..
      rw [map_cons,map_cons,intercalate_cons_cons,mem_append,mem_append,mem_singleton,
        ← map_cons,ih,hcon]
      constructor
      · rintro ((hnam | hslash) | hothers)
        · exact Or.inl hnam
        · exact absurd hslash hc
        · exact Or.inr hothers
      · rintro (hnam | hothers)
        · exact Or.inl (Or.inl hnam)
        · exact Or.inr hothers

section Names
variable {names : List String}

theorem encodePreviewPath_names (hne : names≠[]) (h : ∀ name ∈ names, Posix.Name name) :
    encodePreviewPath (joinSlash names)=joinSlash (names.map Percent.encodeComponent) := by
  rw [encodePreviewPath,splitSlash_joinSlash hne fun name hnam => (h name hnam).slash]

/-- The segments of a link below its host. -/
def linkSegments (names : List String) : List (List Char) := names.map fun name => (Percent.encodeComponent name).toList

theorem encodePreviewPath_toList (hne : names≠[]) (h : ∀ name ∈ names, Posix.Name name) :
    '/' :: (encodePreviewPath (joinSlash names)).toList=(linkSegments names).flatMap ('/' :: ·) := by
  have hseg : linkSegments names≠[] := by simpa [linkSegments] using hne
  rw [encodePreviewPath_names hne h,joinSlash_toList,WebUrl.flatMap_slash hseg,linkSegments,map_map]
  rfl

theorem plain_linkSegments (h : ∀ name ∈ names, Posix.Name name) : ∀ segment ∈ linkSegments names, WebUrl.Plain segment := by
  intro segment hseg
  obtain ⟨name,hnam,rfl⟩ := mem_map.1 hseg
  exact WebUrl.plain_encodeComponent (h name hnam).dot (h name hnam).dots

theorem mapM_decodePreviewPart (h : ∀ name ∈ names, Posix.Name name) :
    (names.map Percent.encodeComponent).mapM decodePreviewPart =
      names.mapM fun name => if '\\' ∈ name.toList then none else some name := by
  induction names with
  | nil => rfl
  | cons name rest ih =>
    rw [map_cons,mapM_cons,mapM_cons,decodePreviewPart_encode (h name mem_cons_self),
      ih fun other hoth => h other (mem_cons_of_mem _ hoth)]

theorem decodePreviewPath_link (hne : names≠[]) (h : ∀ name ∈ names, Posix.Name name) :
    decodePreviewPath (String.ofList ((linkSegments names).flatMap ('/' :: ·))) =
      if '\\' ∈ (joinSlash names).toList then none else some names := by
  have hspl : splitSlash (joinSlash (names.map Percent.encodeComponent))=names.map Percent.encodeComponent := by
    refine splitSlash_joinSlash (by simpa using hne) fun part hpar => ?_
    obtain ⟨name,-,rfl⟩ := mem_map.1 hpar
    exact slash_encodeComponent name
  have hfil : (names.map Percent.encodeComponent).filter (· ≠ "")=names.map Percent.encodeComponent := by
    rw [filter_eq_self]
    intro part hpar
    obtain ⟨name,hnam,rfl⟩ := mem_map.1 hpar
    exact decide_eq_true (encodeComponent_ne_empty (h name hnam).nonempty)
  unfold decodePreviewPath
  rw [← encodePreviewPath_toList hne h,String.toList_ofList]
  simp only
  rw [String.ofList_toList,encodePreviewPath_names hne h,hspl,hfil,mapM_decodePreviewPart h,mapM_unless]
  simp only [mem_joinSlash (show '\\' ≠ '/' by decide)]

end Names

/-- A file that is accepted is below the directory it is scoped to. -/
structure Below (file : SelectedFile) (names : List String) : Prop where
  nonempty : names≠[]
  named : ∀ name ∈ names, Posix.Name name
  path : file.namedPath.names=file.root.names++names
  relative : file.relativePath=joinSlash names
  computed : file.relativePath=Posix.relative file.root.text file.namedPath.text
  stays : Posix.leaves file.relativePath=false

theorem below_of_selectFile {canonicalPath : String → Bool → Except String Posix.CanonicalPath} {path : String} {file : SelectedFile}
    (h : selectFile canonicalPath path=.ok file) : ∃ names, Below file names := by
  simp only [selectFile,bind,Except.bind] at h
  split at h
  next => cases h
  next namedPath hnam =>
    split at h
    next => cases h
    next followed hfol =>
      split at h
      next => cases h
      next =>
        split at h
        next => cases h
        next root hroo =>
          split at h
          next => cases h
          next hche =>
            cases h
            simp only [not_or,Bool.not_eq_true] at hche
            obtain ⟨hemp,hsta,-⟩ := hche
            obtain ⟨names,hnas,hrel⟩ := Posix.relative_below hsta
            refine ⟨names,fun hnil => ?_,fun name hnae => ?_,hnas,hrel,rfl,hsta⟩
            · rw [hrel,hnil] at hemp
              exact hemp rfl
            · refine namedPath.name ?_
              rw [hnas]
              exact mem_append_right _ hnae

section Serving
variable {file : SelectedFile} {names : List String} (readFile : String → Option FileRead)
  (staticFilePreview : String → List UInt8 → List UInt8)

/-- The path of the link leads to the file, unless there is a backslash in it. -/
theorem serveFile_link (h : Below file names) {method : String} (hmet : method = "GET" ∨ method = "HEAD") :
    serveFile readFile staticFilePreview method file.root.text (String.ofList ((linkSegments names).flatMap ('/' :: ·))) =
      if '\\' ∈ file.relativePath.toList then
        ⟨none,.failed 404 "file_preview_unavailable" "The isolated file preview is unavailable."⟩
      else
        ⟨some file.namedPath.text,
          sendFile staticFilePreview method file.root.text (names.getLast?.getD "file") (readFile file.namedPath.text)⟩ := by
  have hall : ¬ (method ≠ "GET" ∧ method ≠ "HEAD") := fun hoth => hmet.elim hoth.1 hoth.2
  have hres : Posix.resolve file.root.text names=file.namedPath.text := by
    rw [Posix.resolve_names file.root h.named,← h.path]
    rfl
  have hwit : within file.root.text file.namedPath.text=true := by
    have hsta:=h.stays
    rw [h.computed] at hsta
    simp only [within,hsta,Bool.not_false,Bool.or_true]
  rw [serveFile,if_neg hall,decodePreviewPath_link h.nonempty h.named,← h.relative]
  by_cases hbac : '\\' ∈ file.relativePath.toList
  · rw [if_pos hbac,if_pos hbac]
  · rw [if_neg hbac,if_neg hbac]
    simp only
    rw [if_neg h.nonempty,hres,hwit]
    rfl

end Serving

def isHexChar (c : Char) : Bool := c.isDigit || (decide ('a' ≤ c) && decide (c ≤ 'f'))

/-- What `randomBytes` gives as hex and as base64url. -/
structure PreviewCrypto.Shaped (crypto : PreviewCrypto) : Prop where
  ids : ∀ n, (crypto.randomId n).toList.length=16 ∧ (crypto.randomId n).toList.all isHexChar=true
  tokens : ∀ n, ticketPattern (crypto.randomToken n)=true

theorem isIdChar_of_isHexChar {c : Char} (h : isHexChar c=true) : isIdChar c=true := by
  simp only [isHexChar,Bool.or_eq_true,Bool.and_eq_true,decide_eq_true_eq] at h
  simp only [isIdChar,isAlphanum_eq,isLower_eq,Bool.or_eq_true,Bool.and_eq_true,decide_eq_true_eq]
  rcases h with hdig | ⟨hlow,hhig⟩
  · exact Or.inl (Or.inl (Or.inr hdig))
  · exact Or.inl (Or.inl (Or.inl (Or.inr ⟨hlow,UInt32.le_trans hhig (by decide)⟩)))

theorem isUnreserved_of_isIdChar {c : Char} (h : isIdChar c=true) : Percent.isUnreserved c=true := by
  simp only [isIdChar,Bool.or_eq_true,beq_iff_eq] at h
  rcases h with (haln | rfl) | rfl
  · rw [Percent.isUnreserved,haln,Bool.true_or]
  · decide
  · decide

theorem plain_of_idChars {id : List Char} (hlen : id.length=16) (h : id.all isIdChar=true) : WebUrl.Plain id := by
  have hcha:=all_eq_true.1 h
  have hsel : Percent.encodeComponent (String.ofList id)=String.ofList id :=
    Percent.encodeComponent_eq_self fun c hc => isUnreserved_of_isIdChar (hcha c (by simpa using hc))
  have hpla : WebUrl.Plain (Percent.encodeComponent (String.ofList id)).toList := by
    refine WebUrl.plain_encodeComponent (fun hdot => ?_) fun hdos => ?_
    · rw [← String.toList_ofList (l := id),hdot] at hlen
      exact absurd hlen (by decide)
    · rw [← String.toList_ofList (l := id),hdos] at hlen
      exact absurd hlen (by decide)
  rwa [hsel,String.toList_ofList] at hpla

/-- The path at which the control server is asked for a link. -/
def reachedSegments (id : String) (names : List String) : List (List Char) :=
  "_qubicl".toList :: "previews".toList::id.toList::linkSegments names

def tokenQuery (token : String) : List Char := "token=".toList++token.toList

section Links
variable {id token : String} {names : List String}

theorem plainQuery_token (htok : token.toList.all isIdChar=true) : WebUrl.PlainQuery (tokenQuery token) := by
  have hcha:=all_eq_true.1 htok
  have hnam : ∀ c ∈ "token=".toList, 0x20<c.toNat ∧ WebUrl.specialQuerySet c=false ∧ c ≠ '#' := forall_chars (by decide)
  have hall : ∀ c ∈ tokenQuery token, 0x20<c.toNat ∧ WebUrl.specialQuerySet c=false ∧ c ≠ '#' := by
    intro c hc
    rcases mem_append.1 hc with hc | hc
    · exact hnam c hc
    · have hid:=hcha c hc
      have henc : Percent.isEncoded c=true := by rw [Percent.isEncoded,isUnreserved_of_isIdChar hid,Bool.true_or]
      have hquo : c ≠ '\'' := by
        rintro rfl
        exact absurd hid (by decide)
      have hpat:=WebUrl.pathSet_of_isEncoded henc
      rw [WebUrl.pathSet,Bool.or_eq_false_iff] at hpat
      refine ⟨(WebUrl.toNat_of_isEncoded henc).1,?_,WebUrl.ne_of_isEncoded henc (by decide)⟩
      rw [WebUrl.specialQuerySet,hpat.1,Bool.false_or,beq_eq_false_iff_ne]
      exact hquo
  exact ⟨by simp [tokenQuery],fun c hc => (hall c hc).1,fun c hc => (hall c hc).2⟩

theorem searchParams_token (htok : token.toList.all isIdChar=true) :
    WebUrl.searchParams ('?' :: tokenQuery token)=[("token",token)] := by
  have hcha:=all_eq_true.1 htok
  have hamp : '&' ∉ tokenQuery token := by
    intro hmem
    rcases mem_append.1 hmem with hmem | hmem
    · exact absurd hmem (by decide)
    · exact absurd (hcha _ hmem) (by decide)
  have hspl : (tokenQuery token).splitOn '&' = [tokenQuery token] := by
    have hsin : (['&'].intercalate [tokenQuery token]).splitOn '&' = [tokenQuery token] :=
      splitOn_intercalate '&' (by simpa using hamp) (cons_ne_nil _ _)
    rwa [intercalate_singleton] at hsin
  have hkey : Cookies.keyOf (tokenQuery token) = "token".toList := by
    simp [Cookies.keyOf,tokenQuery]
  have hval : Cookies.valueOf (tokenQuery token)=token.toList := by
    simp [Cookies.valueOf,tokenQuery]
  have hnam : WebUrl.formDecode "token".toList = "token" := WebUrl.formDecode_eq (forall_chars (by decide))
  have hsel : WebUrl.formDecode token.toList=token := by
    refine WebUrl.formDecode_eq fun c hc => ?_
    have hid:=hcha c hc
    constructor
    · rintro rfl
      exact absurd hid (by decide)
    · rintro rfl
      exact absurd hid (by decide)
  have hne : tokenQuery token≠[] := by simp [tokenQuery]
  rw [WebUrl.searchParams,drop_succ_cons,drop_zero,hspl,filter_cons_of_pos (by simpa using hne),
    filter_nil,map_cons,map_nil,hkey,hval,hnam,hsel]

theorem previewsPath_eq : previewsPath = '/' :: ("_qubicl".toList ++ '/' :: ("previews".toList++['/'])) := by decide

theorem matchPreview_reached (hlen : id.toList.length=16) (hid : id.toList.all isIdChar=true) (hne : names≠[])
    (hnam : ∀ name ∈ names, Posix.Name name) :
    matchPreview ((reachedSegments id names).flatMap ('/' :: ·)) =
      some (id,some (String.ofList ((linkSegments names).flatMap ('/' :: ·)))) := by
  have hpat : (reachedSegments id names).flatMap ('/' :: ·) =
      previewsPath++(id.toList++(linkSegments names).flatMap ('/' :: ·)) := by
    simp only [reachedSegments,flatMap_cons,previewsPath_eq,cons_append,append_assoc,nil_append]
  have hpre : previewsPath.isPrefixOf (previewsPath++(id.toList++(linkSegments names).flatMap ('/' :: ·)))=true :=
    isPrefixOf_iff_prefix.2 (prefix_append _ _)
  have htak : (id.toList++(linkSegments names).flatMap ('/' :: ·)).take 16=id.toList := take_left' hlen
  have hdro : (id.toList++(linkSegments names).flatMap ('/' :: ·)).drop 16=(linkSegments names).flatMap ('/' :: ·) :=
    drop_left' hlen
  have hres : (linkSegments names).flatMap ('/' :: ·) = '/' :: ['/'].intercalate (linkSegments names) :=
    WebUrl.flatMap_slash (by simpa [linkSegments] using hne)
  have hlin : (['/'].intercalate (linkSegments names)).all (!isLineEnd ·)=true := by
    rw [all_eq_true]
    intro c hc
    rcases WebUrl.mem_intercalate hc with rfl | ⟨segment,hseg,hc⟩
    · decide
    · have henc:=(plain_linkSegments hnam segment hseg).encoded c hc
      simp [isLineEnd,WebUrl.ne_of_isEncoded henc (d := '\n') (by decide),
        WebUrl.ne_of_isEncoded henc (d := '\r') (by decide),WebUrl.ne_of_isEncoded henc (d := '\u2028') (by decide),
        WebUrl.ne_of_isEncoded henc (d := '\u2029') (by decide)]
  rw [hpat,matchPreview,if_pos hpre,drop_left]
  simp only [htak,hdro]
  rw [if_pos ⟨hlen,hid⟩,hres]
  simp only
  rw [if_pos ⟨trivial,hlin⟩,String.ofList_toList]

theorem openLink_url (crypto : PreviewCrypto) (readFile : String → Option FileRead)
    (staticFilePreview : String → List UInt8 → List UInt8) (hlen : id.toList.length=16)
    (hid : id.toList.all isIdChar=true) (htok : token.toList.all isIdChar=true) (hne : names≠[])
    (hnam : ∀ name ∈ names, Posix.Name name) (base : BaseUrl) (request : FileRequest) (now later : ℤ) (s : FilePreviews) :
    s.openLink crypto readFile staticFilePreview id request
        (externalPath id base++encodePreviewPath (joinSlash names) ++ "?token=" ++ Percent.encodeComponent token) now later =
      some (s.handle crypto readFile staticFilePreview request
        ⟨(reachedSegments id names).flatMap ('/' :: ·),'?' :: tokenQuery token⟩ now later) := by
  have hque:=plainQuery_token htok
  have hsel : Percent.encodeComponent token=token :=
    Percent.encodeComponent_eq_self fun c hc => isUnreserved_of_isIdChar (all_eq_true.1 htok c hc)
  have hseg : linkSegments names≠[] := by simpa [linkSegments] using hne
  have hpla:=plain_linkSegments hnam
  obtain ⟨first,more,hfir⟩ := exists_cons_of_ne_nil hne
  have hlin : linkSegments names=(Percent.encodeComponent first).toList::linkSegments more := by
    rw [hfir]
    rfl
  have hfie : (Percent.encodeComponent first).toList≠[] := by
    intro hnil
    refine encodeComponent_ne_empty (hnam first (hfir ▸ mem_cons_self)).nonempty ?_
    exact String.toList_injective hnil
  have haut : ∀ c ∈ (base.credentials++id ++ "--" ++ base.hostname++base.port).toList,
      0x20<c.toNat ∧ WebUrl.isSlash c=false ∧ WebUrl.endsPath c=false := by
    intro c hc
    have hbas:=base.plain
    simp only [String.toList_append,mem_append] at hc hbas
    rcases hc with (((hc | hc) | hc) | hc) | hc
    · exact hbas c (Or.inl (Or.inl hc))
    · have hcha:=all_eq_true.1 hid c hc
      have henc : Percent.isEncoded c=true := by rw [Percent.isEncoded,isUnreserved_of_isIdChar hcha,Bool.true_or]
      refine ⟨(WebUrl.toNat_of_isEncoded henc).1,?_,?_⟩
      · simp [WebUrl.isSlash,WebUrl.ne_of_isEncoded henc (d := '/') (by decide),
          WebUrl.ne_of_isEncoded henc (d := '\\') (by decide)]
      · simp [WebUrl.endsPath,WebUrl.ne_of_isEncoded henc (d := '?') (by decide),
          WebUrl.ne_of_isEncoded henc (d := '#') (by decide)]
    · have hdas : ∀ d ∈ "--".toList, 0x20<d.toNat ∧ WebUrl.isSlash d=false ∧ WebUrl.endsPath d=false := forall_chars (by decide)
      exact hdas c hc
    · exact hbas c (Or.inl (Or.inr hc))
    · exact hbas c (Or.inr hc)
  have hsch : ∀ c ∈ (if base.secure then "https" else "http").toList, c ≠ ':' ∧ 0x20<c.toNat := by
    cases base.secure <;> exact forall_chars (by decide)
  have hhos : (base.credentials++id ++ "--" ++ base.hostname++base.port).toList≠[] := by simp
  have htex : (externalPath id base++encodePreviewPath (joinSlash names) ++ "?token=" ++ Percent.encodeComponent token).toList =
      (if base.secure then "https" else "http").toList ++ "://".toList ++
        (base.credentials++id ++ "--" ++ base.hostname++base.port).toList ++
          ((linkSegments names).flatMap ('/' :: ·) ++ '?' :: tokenQuery token) := by
    rw [hsel,← encodePreviewPath_toList hne hnam,tokenQuery]
    simp [externalPath]
  have hurl:=WebUrl.parseUrl_plain hsch hhos haut hseg hpla hque
  rw [hlin] at hpla
  have hfor:=WebUrl.parseTarget_plain hfie hpla hque
  rw [← hlin] at hfor hpla
  have hren : ∀ segment ∈ reachedSegments id names, WebUrl.Plain segment := by
    intro segment hsegment
    simp only [reachedSegments,mem_cons] at hsegment
    rcases hsegment with rfl | rfl | rfl | hsegment
    · exact ⟨forall_chars (by decide),by decide,by decide⟩
    · exact ⟨forall_chars (by decide),by decide,by decide⟩
    · exact plain_of_idChars hlen hid
    · exact hpla segment hsegment
  have hqub : "_qubicl".toList≠[] := by decide
  have hrea:=WebUrl.parseTarget_plain hqub hren hque
  have hgat : FilePreviews.gatewayTarget id ⟨(linkSegments names).flatMap ('/' :: ·),'?' :: tokenQuery token⟩ =
      (reachedSegments id names).flatMap ('/' :: ·) ++ '?' :: tokenQuery token := by
    simp only [FilePreviews.gatewayTarget,reachedSegments,flatMap_cons,previewsPath_eq,cons_append,
      append_assoc,nil_append]
  rw [FilePreviews.openLink,htex,hurl]
  simp only [Option.bind_eq_bind,Option.bind_some,hfor,hgat]
  exact congrArg (fun reached => reached.bind fun reached =>
    some (s.handle crypto readFile staticFilePreview request reached now later)) hrea

end Links

end Qubicl.Control.Previews
