import Qubicl.Control.Previews.LinkPaths

/-!
# A link reads its file

The publication of a file stays as it was made until it is taken back, and while it is there its link reads the file.
-/

namespace Qubicl.Control.Previews
open Foundation PreviewManager List

/-- One change to the map of publications. -/
inductive Change (crypto : PreviewCrypto) (m m' : PreviewManager) : Prop
  | keep (h : m'.publications=m.publications) (hids : m'.ids=m.ids)
  | delete (id : String) (h : m'.publications=mapDelete id m.publications) (hids : m'.ids=m.ids)
  | update (id : String) (old new : PortPublication) (hold : m.publications.lookup id=some (.port old))
      (h : m'.publications=mapSet id (.port new) m.publications) (hids : m'.ids=m.ids)
  | insert (p : Publication) (h : m'.publications=mapSet (crypto.randomId m.ids) p m.publications) (hids : m'.ids=m.ids+1)

abbrev Changes (crypto : PreviewCrypto) : PreviewManager → PreviewManager → Prop := Relation.ReflTransGen (Change crypto)

variable {id : String} {now : ℤ} {p : FilePublication}

section Steps
variable {crypto : PreviewCrypto} {m m' m'' : PreviewManager}

theorem Changes.keep (h : m'.publications=m.publications) (hids : m'.ids=m.ids) : Changes crypto m m' :=
  .single (.keep h hids)

theorem Changes.foldl {α : Type} {f : PreviewManager → α → PreviewManager} (hf : ∀ m a, Changes crypto m (f m a)) (l : List α) :
    ∀ m, Changes crypto m (l.foldl f m) := by
  induction l with
  | nil => exact fun m => .refl
  | cons a rest ih => exact fun m => (hf m a).trans (ih _)

theorem changes_unpublish (m : PreviewManager) (id : String) : Changes crypto m (m.unpublish id) := by
  unfold PreviewManager.unpublish
  dsimp only
  split
  · exact .keep rfl rfl
  · exact .single (.delete id rfl rfl)

theorem changes_revokeShare (m : PreviewManager) (id : String) : Changes crypto m (m.revokeShare id) := by
  unfold PreviewManager.revokeShare
  dsimp only
  split
  next publication hloo =>
    split
    · exact .single (.update id publication _ hloo rfl rfl)
    · exact .keep rfl rfl
  next => exact .keep rfl rfl

theorem changes_prune (m : PreviewManager) (now : ℤ) : Changes crypto m (m.prune now) := by
  have hent : ∀ m entry, Changes crypto m (pruneEntry now m entry) := by
    intro m entry
    unfold PreviewManager.pruneEntry
    split
    next =>
      split
      · exact changes_unpublish m _
      · exact .refl
    next =>
      split
      next =>
        split
        · exact changes_revokeShare m _
        · exact .refl
      next => exact .refl
  exact (Changes.foldl hent m.publications m).trans (Changes.keep rfl rfl)

theorem changes_pruneFilePublications (m : PreviewManager) : Changes crypto m m.pruneFilePublications :=
  Changes.foldl (fun m (oldest : FilePublication) => changes_unpublish m oldest.id) _ m

theorem changes_clear (m : PreviewManager) : Changes crypto m m.clear :=
  (Changes.foldl (fun m id => changes_unpublish m id) _ m).trans (Changes.keep rfl rfl)

theorem changes_share (m : PreviewManager) (id : String) (expiresInSeconds : ℤ) (access : Except String PreviewAccess)
    (now later : ℤ) : Changes crypto m (m.share crypto id expiresInSeconds access now later) := by
  have hpru : Changes crypto m (m.prune now) := changes_prune m now
  have hrev:=hpru.trans (changes_revokeShare _ id)
  unfold PreviewManager.share
  dsimp only
  split
  next =>
    split
    · exact hpru
    · split
      · exact hpru
      · split
        next publication hloo => exact hrev.tail (.update id publication _ hloo rfl rfl)
        next => exact hrev
  next => exact hpru

theorem changes_publish (m : PreviewManager) (port : ℕ) (legacy : Option ℤ) (access : Except String PreviewAccess)
    (now shareNow shareLater : ℤ) : Changes crypto m (m.publish crypto port legacy access now shareNow shareLater) := by
  unfold PreviewManager.publish
  dsimp only
  split
  next =>
    split
    · exact .single (.insert _ rfl rfl)
    · refine Relation.ReflTransGen.trans ?_ (changes_share _ _ _ _ _ _)
      exact .single (.insert _ rfl rfl)
  next => exact .single (.insert _ rfl rfl)

theorem changes_pruned (m : PreviewManager) (now : ℤ) : Changes crypto m (m.prune now).pruneFilePublications :=
  (changes_prune m now).trans (changes_pruneFilePublications _)

theorem changes_publishFile (m : PreviewManager) (expiresInSeconds now later : ℤ) :
    Changes crypto m (m.publishFile crypto expiresInSeconds now later) :=
  (changes_pruned m now).tail (.insert _ rfl rfl)

theorem changes_openForManagement (m : PreviewManager) (id : String) (surface : PreviewSurface)
    (access : Except String PreviewAccess) (now later : ℤ) :
    Changes crypto m (m.openForManagement crypto id surface access now later) := by
  have hpru : Changes crypto m (m.prune now) := changes_prune m now
  unfold PreviewManager.openForManagement
  dsimp only
  split
  next => exact hpru
  next => exact hpru
  next publication granted hloo =>
    generalize (if surface=.localSurface then some granted.publicBaseUrl else granted.remoteBaseUrl)=base
    split
    · exact hpru
    · exact hpru.tail (.keep rfl rfl)

theorem changes_redeemManagementTicket (m : PreviewManager) (request : PreviewRequest) (id : String)
    (publication : Publication) (later : ℤ) :
    Changes crypto m (m.redeemManagementTicket crypto request id publication later).2 := by
  unfold PreviewManager.redeemManagementTicket
  split
  next => exact .refl
  next =>
    split
    next => exact .refl
    next =>
      split
      · exact .refl
      · exact .keep rfl rfl

theorem changes_handle (m : PreviewManager) (id : String) (request : PreviewRequest) (now later : ℤ) :
    Changes crypto m (m.handle crypto id request now later).2 := by
  have hpru : Changes crypto m (m.prune now) := changes_prune m now
  unfold PreviewManager.handle
  dsimp only
  split
  next => exact hpru
  next publication hloo =>
    have hred:=hpru.trans (@changes_redeemManagementTicket crypto _ request id publication later)
    split
    next hres =>
      rw [hres] at hred
      exact hred
    next hres =>
      rw [hres] at hred
      split
      · exact hred
      · exact hred

theorem changes_step (m : PreviewManager) (action : PreviewAction) : Changes crypto m (m.step crypto action) := by
  cases action with
  | publish => exact changes_publish m _ _ _ _ _ _
  | publishFile => exact changes_publishFile m _ _ _
  | share => exact changes_share m _ _ _ _ _
  | revokeShare id => exact changes_revokeShare m id
  | openForManagement => exact changes_openForManagement m _ _ _ _ _
  | revokeForManagement id now => exact (changes_prune m now).trans (changes_unpublish _ id)
  | unpublish id => exact changes_unpublish m id
  | clear => exact changes_clear m
  | list now => exact changes_prune m now
  | removeStoppedPort id =>
    show Changes crypto m (m.removeStoppedPort id)
    unfold PreviewManager.removeStoppedPort
    split
    · exact changes_unpublish m id
    · exact .refl
  | expiryTimer id =>
    show Changes crypto m (m.expiryTimer id)
    unfold PreviewManager.expiryTimer
    split
    · exact changes_unpublish m id
    · exact .refl
  | shareExpiryTimer id =>
    show Changes crypto m (m.shareExpiryTimer id)
    unfold PreviewManager.shareExpiryTimer
    split
    · exact changes_revokeShare m id
    · exact .refl
  | handle => exact changes_handle m _ _ _ _
  | handleUpgrade id request now later =>
    show Changes crypto m (m.handleUpgrade crypto id request now later).2
    unfold PreviewManager.handleUpgrade
    dsimp only
    split
    · exact changes_prune m now
    · exact changes_prune m now

theorem nodup_mapDelete {map : List (String × Publication)} (h : (map.map Prod.fst).Nodup) (id : String) :
    ((mapDelete id map).map Prod.fst).Nodup := nodup_filter h _

theorem Changes.nodup (h : Changes crypto m m') (hkey : (m.publications.map Prod.fst).Nodup) :
    (m'.publications.map Prod.fst).Nodup := by
  induction h with
  | refl => exact hkey
  | tail _ hcha ih =>
    cases hcha with
    | keep hp => rwa [hp]
    | delete id hp =>
      rw [hp]
      exact nodup_mapDelete ih id
    | update id old new hold hp =>
      rw [hp]
      exact nodup_mapSet ih
    | insert p hp =>
      rw [hp]
      exact nodup_mapSet ih

/-- Under the ID is this publication of a file, or nothing any more, and the IDs before `n` are used up. -/
structure Kept (id : String) (p : FilePublication) (n : ℕ) (m : PreviewManager) : Prop where
  drawn : n ≤ m.ids
  found : ∀ q, m.publications.lookup id=some q → q=.file p

theorem Changes.kept {n : ℕ} (hfre : ∀ k, n≤k → crypto.randomId k≠id) (h : Changes crypto m m') (hkep : Kept id p n m) :
    Kept id p n m' := by
  induction h with
  | refl => exact hkep
  | tail _ hcha ih =>
    cases hcha with
    | keep hp hids =>
      refine ⟨hids ▸ ih.drawn,fun q hq => ?_⟩
      rw [hp] at hq
      exact ih.found q hq
    | delete other hp hids =>
      refine ⟨hids ▸ ih.drawn,fun q hq => ?_⟩
      rw [hp,lookup_mapDelete] at hq
      split at hq
      · cases hq
      · exact ih.found q hq
    | update other old new hold hp hids =>
      refine ⟨hids ▸ ih.drawn,fun q hq => ?_⟩
      rw [hp,lookup_mapSet] at hq
      split at hq
      next heq =>
        rw [← heq] at hold
        cases ih.found _ hold
      next => exact ih.found q hq
    | insert new hp hids =>
      refine ⟨hids ▸ Nat.le_succ_of_le ih.drawn,fun q hq => ?_⟩
      rw [hp,lookup_mapSet,if_neg (Ne.symm (hfre _ ih.drawn))] at hq
      exact ih.found q hq

theorem lookup_unpublish_ne {other : String} (h : id≠other) :
    (m.unpublish other).publications.lookup id=m.publications.lookup id := by
  unfold PreviewManager.unpublish
  dsimp only
  split
  · rfl
  · exact (lookup_mapDelete other id m.publications).trans (if_neg h)

theorem lookup_revokeShare_file (h : m.publications.lookup id=some (.file p)) (other : String) :
    (m.revokeShare other).publications.lookup id=some (.file p) := by
  unfold PreviewManager.revokeShare
  dsimp only
  split
  next publication hloo =>
    split
    next =>
      refine (lookup_mapSet other id _ m.publications).trans ?_
      have hne : id≠other := by
        rintro rfl
        have hpor : m.publications.lookup id=some (.port publication) := hloo
        rw [h] at hpor
        cases hpor
      rw [if_neg hne,h]
    next => exact h
  next => exact h

/- What has not expired is not pruned. -/
theorem lookup_prune_file (hkey : (m.publications.map Prod.fst).Nodup) (h : m.publications.lookup id=some (.file p))
    (hnow : now<p.expiresAt) : (m.prune now).publications.lookup id=some (.file p) := by
  have hens : ∀ entry ∈ m.publications, entry.1=id → entry.2 = .file p := by
    intro entry hent hid
    have hfou : m.publications.lookup entry.1=some entry.2 := lookup_of_mem hkey hent
    rw [hid,h] at hfou
    exact (Option.some.inj hfou).symm
  have hfol : ∀ (entries : List (String × Publication)) (start : PreviewManager),
      (∀ entry ∈ entries, entry.1=id → entry.2 = .file p) → start.publications.lookup id=some (.file p) →
        (entries.foldl (pruneEntry now) start).publications.lookup id=some (.file p) := by
    intro entries
    induction entries with
    | nil => exact fun _ _ hsta => hsta
    | cons entry rest ih =>
      intro start hall hsta
      refine ih _ (fun other hoth => hall other (mem_cons_of_mem _ hoth)) ?_
      have hent:=hall entry mem_cons_self
      unfold PreviewManager.pruneEntry
      split
      next publication hfil =>
        split
        next hexp =>
          have hne : id≠entry.1 := by
            rintro rfl
            have heq:=hent rfl
            rw [hfil,Publication.file.injEq] at heq
            rw [heq] at hexp
            omega
          rw [lookup_unpublish_ne hne,hsta]
        next => exact hsta
      next =>
        split
        next =>
          split
          · exact lookup_revokeShare_file hsta _
          · exact hsta
        next => exact hsta
  exact hfol m.publications m hens h

theorem handle_file (hkey : (m.publications.map Prod.fst).Nodup) {token : String}
    (h : m.publications.lookup id=some (.file p)) (htok : crypto.digest token=p.tokenHash) (hne : token ≠ "")
    (hnow : now<p.expiresAt) (surface cookie : Option String) (later : ℤ) :
    ∃ scope, m.handle crypto id ⟨surface,cookie,some token,none⟩ now later=(some scope,m.prune now) := by
  have hpru:=lookup_prune_file hkey h hnow
  refine ⟨if (⟨surface,cookie,some token,none⟩ : PreviewRequest).access=.remoteSurface then .share else .owner,?_⟩
  unfold PreviewManager.handle
  simp only [hpru,PreviewManager.redeemManagementTicket,PreviewRequest.presented,Option.some_or,if_neg hne,
    PreviewManager.validPreviewToken,htok,if_true]

end Steps

section Runs
variable {crypto : PreviewCrypto} {s s' : FilePreviews}

/-- What is published for a file that was selected. -/
def FilePreviews.published (crypto : PreviewCrypto) (file : SelectedFile) (expiresInSeconds now later : ℤ) (s : FilePreviews) :
    FilePreviews :=
  { manager := s.manager.publishFile crypto expiresInSeconds now later
    scopes := mapSet (crypto.randomId ((s.manager.prune now).pruneFilePublications).ids)
      ⟨file.root.text,encodePreviewPath file.relativePath⟩ s.scopes }

theorem publishFile_state (canonicalPath : String → Bool → Except String Posix.CanonicalPath) (access : Except String PreviewBases)
    (path : String) (expiresInSeconds now later : ℤ) (s : FilePreviews) :
    (s.publishFile crypto canonicalPath access path expiresInSeconds now later).2=s ∨
      ∃ file, (s.publishFile crypto canonicalPath access path expiresInSeconds now later).2 =
        s.published crypto file expiresInSeconds now later := by
  unfold FilePreviews.publishFile
  split
  next => exact Or.inl rfl
  next =>
    split
    next => exact Or.inl rfl
    next file hfil =>
      refine Or.inr ⟨file,?_⟩
      unfold FilePreviews.publishSelected
      cases access <;> rfl

/-- What a link says about what was published. -/
structure LinkOf (crypto : PreviewCrypto) (file : SelectedFile) (expiresInSeconds now later : ℤ) (s : FilePreviews)
    (link : FileLink) : Prop where
  id : link.id=crypto.randomId ((s.manager.prune now).pruneFilePublications).ids
  expiresAt : link.expiresAt=later+expiresInSeconds*1000
  urls : ∀ url ∈ link.urls, ∃ base, url=externalPath link.id base++encodePreviewPath file.relativePath ++ "?token=" ++
    Percent.encodeComponent (crypto.randomToken ((s.manager.prune now).pruneFilePublications).drawn)

theorem link_of_publishFile {canonicalPath : String → Bool → Except String Posix.CanonicalPath}
    {access : Except String PreviewBases} {path : String} {expiresInSeconds later : ℤ} {link : FileLink}
    (h : s.publishFile crypto canonicalPath access path expiresInSeconds now later=(.ok link,s')) :
    ∃ file, selectFile canonicalPath path=.ok file ∧ s'=s.published crypto file expiresInSeconds now later ∧
      LinkOf crypto file expiresInSeconds now later s link := by
  unfold FilePreviews.publishFile at h
  split at h
  next => cases h
  next =>
    split at h
    next => cases h
    next file hfil =>
      unfold FilePreviews.publishSelected at h
      cases access with
      | error code => cases h
      | ok bases =>
        cases h
        refine ⟨file,hfil,rfl,rfl,rfl,fun url hurl => ?_⟩
        rcases mem_cons.1 hurl with rfl | hremote
        · exact ⟨bases.publicBaseUrl,rfl⟩
        · obtain ⟨base,-,rfl⟩ := Option.map_eq_some_iff.1 (Option.mem_toList.1 hremote)
          exact ⟨base,rfl⟩

theorem other_step {action : PreviewAction} (h : s.step crypto (.other action)=some s') :
    s' = { s with manager := s.manager.step crypto action } := by
  cases action <;> cases h <;> rfl

theorem changes_of_fileStep {action : FileAction} (h : (filePreviewSystem crypto).step s action=some s') :
    Changes crypto s.manager s'.manager := by
  cases action with
  | publishFile canonicalPath access path expiresInSeconds now later =>
    cases h
    rcases @publishFile_state crypto canonicalPath access path expiresInSeconds now later s with hsam | ⟨file,hsta⟩
    · rw [hsam]
    · rw [hsta]
      exact changes_publishFile _ _ _ _
  | other action =>
    rw [other_step h]
    exact changes_step s.manager action

theorem nodup_of_reachable (h : (filePreviewSystem crypto).Reachable s) : (s.manager.publications.map Prod.fst).Nodup := by
  apply h.invariant
  · intro start hini
    cases hini
    exact nodup_nil
  · intro before action after hkey hste
    exact (changes_of_fileStep hste).nodup hkey

/-- The publication is there with its scope, or it is gone for good. -/
structure KeptFile (id : String) (p : FilePublication) (scope : FileScope) (n : ℕ) (s : FilePreviews) : Prop where
  manager : Kept id p n s.manager
  scope : s.scopes.lookup id=some scope

theorem KeptFile.step {scope : FileScope} {n : ℕ} (hfre : ∀ k, n≤k → crypto.randomId k≠id)
    (hkep : KeptFile id p scope n s) {action : FileAction} (h : (filePreviewSystem crypto).step s action=some s') :
    KeptFile id p scope n s' := by
  refine ⟨(changes_of_fileStep h).kept hfre hkep.manager,?_⟩
  cases action with
  | publishFile canonicalPath access path expiresInSeconds now later =>
    cases h
    rcases @publishFile_state crypto canonicalPath access path expiresInSeconds now later s with hsam | ⟨file,hsta⟩
    · rw [hsam]
      exact hkep.scope
    · have hpru:=(@changes_pruned crypto s.manager now).kept hfre hkep.manager
      rw [hsta,FilePreviews.published,lookup_mapSet,if_neg (Ne.symm (hfre _ hpru.drawn))]
      exact hkep.scope
  | other action =>
    rw [other_step h]
    exact hkep.scope

theorem keptFile_published (file : SelectedFile) (expiresInSeconds now later : ℤ) (s : FilePreviews) :
    KeptFile (crypto.randomId ((s.manager.prune now).pruneFilePublications).ids)
      ⟨crypto.randomId ((s.manager.prune now).pruneFilePublications).ids,later,
        crypto.digest (crypto.randomToken ((s.manager.prune now).pruneFilePublications).drawn),later+expiresInSeconds*1000⟩
      ⟨file.root.text,encodePreviewPath file.relativePath⟩ (s.published crypto file expiresInSeconds now later).manager.ids
      (s.published crypto file expiresInSeconds now later) where
  manager :=
    { drawn := Nat.le_refl _
      found := fun q hq => by
        have hlookup:=lookup_mapSet (crypto.randomId ((s.manager.prune now).pruneFilePublications).ids)
          (crypto.randomId ((s.manager.prune now).pruneFilePublications).ids)
          (Publication.file ⟨crypto.randomId ((s.manager.prune now).pruneFilePublications).ids,later,
            crypto.digest (crypto.randomToken ((s.manager.prune now).pruneFilePublications).drawn),
            later+expiresInSeconds*1000⟩) ((s.manager.prune now).pruneFilePublications).publications
        rw [if_pos rfl] at hlookup
        exact (Option.some.inj (hlookup.symm.trans hq)).symm }
  scope := by
    rw [FilePreviews.published,lookup_mapSet,if_pos rfl]

theorem openLink_kept (shaped : crypto.Shaped) {file : SelectedFile} {names : List String} (hbel : Below file names)
    {n k : ℕ} {entryPath : String} (hid : ∃ i, id=crypto.randomId i)
    (hkep : KeptFile id p ⟨file.root.text,entryPath⟩ n s) (hkey : (s.manager.publications.map Prod.fst).Nodup)
    (hliv : (s.manager.publications.lookup id).isSome) (htok : p.tokenHash=crypto.digest (crypto.randomToken k))
    (hnow : now<p.expiresAt) (later : ℤ) (request : FileRequest) (base : BaseUrl)
    (readFile : String → Option FileRead) (staticFilePreview : String → List UInt8 → List UInt8) :
    s.openLink crypto readFile staticFilePreview id request
        (externalPath id base++encodePreviewPath file.relativePath ++ "?token=" ++
          Percent.encodeComponent (crypto.randomToken k)) now later =
      some (.file (serveFile readFile staticFilePreview request.method file.root.text
          (String.ofList ((linkSegments names).flatMap ('/' :: ·)))),{ s with manager := s.manager.prune now }) := by
  obtain ⟨i,hi⟩ := hid
  obtain ⟨hlen,hhex⟩ := shaped.ids i
  have hcha : id.toList.all isIdChar=true := by
    rw [hi,all_eq_true]
    exact fun c hc => isIdChar_of_isHexChar (all_eq_true.1 hhex c hc)
  have hsha:=shaped.tokens k
  have htos : (crypto.randomToken k).toList.all isIdChar=true := (Bool.and_eq_true_iff.1 hsha).2
  have hne : crypto.randomToken k ≠ "" := by
    intro hemp
    rw [hemp] at hsha
    exact absurd hsha (by decide)
  have hloo : s.manager.publications.lookup id=some (.file p) := by
    obtain ⟨q,hq⟩ := Option.isSome_iff_exists.1 hliv
    rw [hq,hkep.manager.found q hq]
  have hpru:=lookup_prune_file hkey hloo hnow
  obtain ⟨scope,hhan⟩ : ∃ scope, s.manager.handle crypto id
      ⟨request.surface,request.cookie,some (crypto.randomToken k),none⟩ now later=(some scope,s.manager.prune now) :=
    handle_file hkey hloo htok.symm hne hnow request.surface request.cookie later
  rw [hbel.relative,openLink_url crypto readFile staticFilePreview (hi ▸ hlen) hcha htos hbel.nonempty
    hbel.named]
  unfold FilePreviews.handle
  simp only [matchPreview_reached (hi ▸ hlen) hcha hbel.nonempty hbel.named,searchParams_token htos]
  have htop : [("token",crypto.randomToken k)].lookup "token" = some (crypto.randomToken k) := by simp
  have htic : [("token",crypto.randomToken k)].lookup "ticket" = none := by simp
  simp only [htop,htic,hhan,hpru,hkep.scope,Option.getD_some]

/-- A link to a published file makes the manager read exactly that file if and only if the file's path below the directory it
is scoped to has no backslash; and a regular file that is not too large is sent then. -/
theorem file_link_reads_file (shaped : crypto.Shaped) (hreach : (filePreviewSystem crypto).Reachable s)
    {canonicalPath : String → Bool → Except String Posix.CanonicalPath} {access : Except String PreviewBases} {path : String}
    {expiresInSeconds now later : ℤ} {link : FileLink} {s₁ s₂ : FilePreviews}
    (hpublish : s.publishFile crypto canonicalPath access path expiresInSeconds now later=(.ok link,s₁))
    {actions : List FileAction} (hrun : (filePreviewSystem crypto).Run s₁ actions s₂)
    (hfresh : ∀ k, s₁.manager.ids≤k → crypto.randomId k≠link.id)
    (hlive : (s₂.manager.publications.lookup link.id).isSome) (now' later' : ℤ) (hnow : now'<link.expiresAt)
    (request : FileRequest) (hmethod : request.method = "GET" ∨ request.method = "HEAD") {url : String} (hurl : url ∈ link.urls)
    (readFile : String → Option FileRead) (staticFilePreview : String → List UInt8 → List UInt8) :
    ∃ file served s₃, selectFile canonicalPath path=.ok file ∧
      s₂.openLink crypto readFile staticFilePreview link.id request url now' later'=some (.file served,s₃) ∧
      (served.readPath=some file.namedPath.text ↔ '\\' ∉ file.relativePath.toList) ∧
      ('\\' ∉ file.relativePath.toList → ∀ read, readFile file.namedPath.text=some read → read.isFile=true →
        read.resolvedPath=file.namedPath.text → read.size ≤ maxFilePreviewBytes → read.data.length ≤ maxFilePreviewBytes →
        ∃ filename, file.namedPath.names.getLast? = some filename ∧
          ((staticFilePreview filename read.data).length ≤ maxFilePreviewBytes →
            served.response =
              .sent filename (if request.method = "HEAD" then none else some (staticFilePreview filename read.data)))) := by
  obtain ⟨file,hfil,rfl,hlin⟩ := link_of_publishFile hpublish
  obtain ⟨names,hbel⟩ := below_of_selectFile hfil
  have hste : (filePreviewSystem crypto).step s (.publishFile canonicalPath access path expiresInSeconds now later) =
      some (s.published crypto file expiresInSeconds now later) := congrArg some (congrArg Prod.snd hpublish)
  have hkey:=nodup_of_reachable ((hreach.step hste).run hrun)
  have hpub:=@keptFile_published crypto file expiresInSeconds now later s
  rw [← hlin.id] at hpub
  have hkep:=hrun.preserves (fun _ _ _ hbef => KeptFile.step hfresh hbef) hpub
  obtain ⟨base,rfl⟩ := hlin.urls url hurl
  have hope:=openLink_kept shaped hbel ⟨_,hlin.id⟩ hkep hkey hlive rfl (hlin.expiresAt ▸ hnow) later' request base readFile
    staticFilePreview
  rw [serveFile_link readFile staticFilePreview hbel hmethod] at hope
  refine ⟨file,_,_,hfil,hope,?_,?_⟩
  · by_cases hbac : '\\' ∈ file.relativePath.toList
    · simp [hbac]
    · simp [hbac]
  · intro hbac read hrea hreg hres hsiz hdat
    have hlas : file.namedPath.names.getLast? = names.getLast? := by
      rw [hbel.path,getLast?_append_of_ne_nil _ hbel.nonempty]
    have hwit : within file.root.text file.namedPath.text=true := by
      have hsta:=hbel.stays
      rw [hbel.computed] at hsta
      simp only [within,hsta,Bool.not_false,Bool.or_true]
    refine ⟨names.getLast hbel.nonempty,?_,fun hbod => ?_⟩
    · rw [hlas,getLast?_eq_getLast_of_ne_nil hbel.nonempty]
    · rw [if_neg hbac,getLast?_eq_getLast_of_ne_nil hbel.nonempty]
      simp only [sendFile,hrea,hreg,hres,hwit,Bool.not_true,Bool.false_eq_true,if_false,Option.getD_some]
      rw [if_neg (by omega),if_neg (by omega)]

end Runs

def exampleLinkCrypto : PreviewCrypto where
  digest := fun token => "sha256:" ++ token
  randomToken := fun _ => "AAAAAAAAAAAAAAAAAAAAAAAAAAAAAAAAAAAAAAAAAAA"
  randomId := fun n => if n=0 then "0123456789abcdef" else "fedcba9876543210"

theorem exampleLinkCrypto_shaped : exampleLinkCrypto.Shaped where
  ids := fun n => by
    unfold exampleLinkCrypto
    dsimp only
    split
    · decide
    · decide
  tokens := fun _ => by
    show ticketPattern "AAAAAAAAAAAAAAAAAAAAAAAAAAAAAAAAAAAAAAAAAAA" = true
    decide

def exampleHome : Posix.CanonicalPath := ⟨["home","qubicl"],by decide⟩

def exampleSource (file : Posix.CanonicalPath) (path : String) (_followFinal : Bool) : Except String Posix.CanonicalPath :=
  if path=file.text then .ok file else if path=exampleHome.text then .ok exampleHome else .error "file_not_found"

def exampleRead (path : String) : Option FileRead := some ⟨[104,105],true,2,path⟩

def exampleBases : PreviewBases where
  publicBaseUrl := ⟨false,"","preview-1.localhost",":7777",forall_chars (by decide)⟩
  remoteBaseUrl := none

def examplePublish (file : Posix.CanonicalPath) : Except String FileLink × FilePreviews :=
  FilePreviews.publishFile exampleLinkCrypto (exampleSource file) (.ok exampleBases) file.text 60 1000 1000
    ⟨PreviewManager.create,[]⟩

def exampleAnswer (file : Posix.CanonicalPath) : Option (String × ℤ × PreviewAnswer) :=
  (examplePublish file).1.toOption.bind fun link =>
    ((examplePublish file).2.openLink exampleLinkCrypto exampleRead (fun _ data => data) link.id ⟨"GET",some "local",none⟩
      link.url 2000 2000).map fun answer => (link.id,link.expiresAt,answer.1)

def exampleNote : Posix.CanonicalPath := ⟨["home","qubicl","100% é?.txt"],by decide⟩

def exampleBackslash : Posix.CanonicalPath := ⟨["home","qubicl","a\\b.txt"],by decide⟩

theorem ok_of_toOption {ε α : Type} {e : Except ε α} {a : α} (h : e.toOption=some a) : e=.ok a := by
  cases e with
  | error err => cases h
  | ok b => exact congrArg Except.ok (Option.some.inj h)

/-- A name with a percent sign, a blank, a letter beyond ASCII and a question mark is read through its link. -/
theorem file_link_reads_file_note : ∃ link s₁ s₃, ∃ (file : SelectedFile) (served : ServedFile),
    examplePublish exampleNote=(.ok link,s₁) ∧
    file.namedPath.names=exampleNote.names ∧
    s₁.openLink exampleLinkCrypto exampleRead (fun _ data => data) link.id ⟨"GET",some "local",none⟩ link.url 2000 2000 =
      some (.file served,s₃) ∧
    served.readPath=some file.namedPath.text := by
  have hlin : (examplePublish exampleNote).1.toOption.map (fun link => (link.id,link.expiresAt)) =
      some ("0123456789abcdef",61000) := by
    decide +kernel
  have hsel : (selectFile (exampleSource exampleNote) exampleNote.text).toOption.map
      (fun file => (file.namedPath.names,file.relativePath))=some (exampleNote.names,"100% é?.txt") := by
    decide
  have hids : (examplePublish exampleNote).2.manager.ids=1 := by decide +kernel
  have hliv : ((examplePublish exampleNote).2.manager.publications.lookup "0123456789abcdef").isSome=true := by decide +kernel
  obtain ⟨link,hopt,hfie⟩ := Option.map_eq_some_iff.1 hlin
  obtain ⟨hid,hexp⟩ := Prod.mk.inj hfie
  have hpub : examplePublish exampleNote=(.ok link,(examplePublish exampleNote).2) :=
    Prod.ext (ok_of_toOption hopt) rfl
  have hrea : (filePreviewSystem exampleLinkCrypto).Reachable ⟨PreviewManager.create,[]⟩ := TransitionSystem.Reachable.initial rfl
  have hfre : ∀ k, (examplePublish exampleNote).2.manager.ids≤k → exampleLinkCrypto.randomId k≠link.id := by
    intro k hk
    rw [hids] at hk
    have hlat : exampleLinkCrypto.randomId k = "fedcba9876543210" := if_neg (by omega)
    rw [hlat,hid]
    decide
  obtain ⟨file,served,s₃,hfil,hope,hred,-⟩ := file_link_reads_file exampleLinkCrypto_shaped hrea hpub
    (TransitionSystem.Run.refl _) hfre (hid ▸ hliv) 2000 2000 (by rw [hexp]; decide)
    ⟨"GET",some "local",none⟩ (Or.inl rfl) mem_cons_self exampleRead fun _ data => data
  rw [hfil] at hsel
  obtain ⟨hnam,hrel⟩ := Prod.mk.inj (Option.some.inj hsel)
  refine ⟨link,_,s₃,file,served,hpub,hnam,hope,hred.2 ?_⟩
  have hpla : file.relativePath = "100% é?.txt" := hrel
  rw [hpla]
  decide

/-- A name with a backslash is published, and its link is refused. -/
theorem backslash_link_refused : ∃ link s₁ s₃, ∃ served : ServedFile,
    examplePublish exampleBackslash=(.ok link,s₁) ∧
    link.expiresAt=61000 ∧
    s₁.openLink exampleLinkCrypto exampleRead (fun _ data => data) link.id ⟨"GET",some "local",none⟩ link.url 2000 2000 =
      some (.file served,s₃) ∧
    served.readPath=none := by
  have hans : exampleAnswer exampleBackslash=some ("0123456789abcdef",61000,
      .file ⟨none,.failed 404 "file_preview_unavailable" "The isolated file preview is unavailable."⟩) := by
    decide +kernel
  obtain ⟨link,hopt,hmap⟩ := Option.bind_eq_some_iff.1 hans
  obtain ⟨answer,hope,hfie⟩ := Option.map_eq_some_iff.1 hmap
  obtain ⟨-,hres⟩ := Prod.mk.inj hfie
  obtain ⟨hexp,hser⟩ := Prod.mk.inj hres
  refine ⟨link,_,answer.2,⟨none,.failed 404 "file_preview_unavailable" "The isolated file preview is unavailable."⟩,
    Prod.ext (ok_of_toOption hopt) rfl,hexp,?_,rfl⟩
  rw [hope,← hser]

end Qubicl.Control.Previews
