import Qubicl.Control.Previews.Confinement

/-!
# Preview capabilities are confined
-/

namespace Qubicl.Control.Previews
open Foundation PreviewManager List

/-- Tokens that are made stay made, and tokens that are taken back stay so. -/
structure Grows (m m' : PreviewManager) : Prop where
  minted : ∀ mint ∈ m.minted, mint ∈ m'.minted
  revoked : ∀ token ∈ m.revoked, token ∈ m'.revoked

variable {secret : PreviewSecret}

section Steps
variable {crypto : PreviewCrypto} {m m' m'' : PreviewManager}

theorem Grows.refl (m : PreviewManager) : Grows m m := ⟨fun _ h => h,fun _ h => h⟩

theorem Grows.trans (h : Grows m m') (h' : Grows m' m'') : Grows m m'' :=
  ⟨fun mint hmem => h'.minted mint (h.minted mint hmem),fun token hmem => h'.revoked token (h.revoked token hmem)⟩

theorem grows_revokes {p : Mint → Bool} (hmin : m'.minted=m.minted)
    (hrev : m'.revoked=(m.revokes p).revoked) : Grows m m' where
  minted := fun mint hmem => by rwa [hmin]
  revoked := fun token htok => by
    rw [hrev]
    exact mem_append_right _ htok

theorem grows_mint {mint : Mint} (hmin : m'.minted=mint::m.minted) (hrev : m'.revoked=m.revoked) :
    Grows m m' where
  minted := fun old hmem => by
    rw [hmin]
    exact mem_cons_of_mem _ hmem
  revoked := fun token htok => by rwa [hrev]

theorem grows_foldl {α : Type} {f : PreviewManager → α → PreviewManager} (hf : ∀ m a, Grows m (f m a)) (l : List α) :
    ∀ m, Grows m (l.foldl f m) := by
  induction l with
  | nil => exact Grows.refl
  | cons a rest ih => exact fun m => (hf m a).trans (ih _)

theorem grows_unpublish (m : PreviewManager) (id : String) : Grows m (m.unpublish id) := by
  unfold PreviewManager.unpublish
  dsimp only
  split
  · exact grows_revokes rfl rfl
  · exact grows_revokes rfl rfl

theorem grows_revokeShare (m : PreviewManager) (id : String) : Grows m (m.revokeShare id) := by
  unfold PreviewManager.revokeShare
  dsimp only
  split
  next =>
    split
    · exact grows_revokes rfl rfl
    · exact grows_revokes rfl rfl
  next => exact grows_revokes rfl rfl

theorem grows_prune (m : PreviewManager) (now : ℤ) : Grows m (m.prune now) := by
  have hent : ∀ m entry, Grows m (pruneEntry now m entry) := by
    intro m entry
    unfold PreviewManager.pruneEntry
    split
    next =>
      split
      · exact grows_unpublish m _
      · exact .refl m
    next =>
      split
      next =>
        split
        · exact grows_revokeShare m _
        · exact .refl m
      next => exact .refl m
  exact (grows_foldl hent m.publications m).trans ⟨fun _ h => h,fun _ h => h⟩

theorem grows_clear (m : PreviewManager) : Grows m m.clear :=
  (grows_foldl (fun m id => grows_unpublish m id) _ m).trans (grows_revokes rfl rfl)

theorem grows_share (m : PreviewManager) (id : String) (expiresInSeconds : ℤ) (access : Except String PreviewAccess)
    (now later : ℤ) : Grows m (m.share crypto id expiresInSeconds access now later) := by
  have hpru:=grows_prune m now
  have hrev:=hpru.trans (grows_revokeShare _ id)
  unfold PreviewManager.share
  dsimp only
  split
  next =>
    split
    · exact hpru
    · split
      · exact hpru
      · split
        · exact hrev.trans (grows_mint rfl rfl)
        · exact hrev
  next => exact hpru

theorem grows_publish (m : PreviewManager) (port : ℕ) (legacy : Option ℤ) (access : Except String PreviewAccess)
    (now shareNow shareLater : ℤ) : Grows m (m.publish crypto port legacy access now shareNow shareLater) := by
  unfold PreviewManager.publish
  dsimp only
  split
  next =>
    split
    · exact grows_mint rfl rfl
    · refine Grows.trans ?_ (grows_share _ _ _ _ _ _)
      exact grows_mint rfl rfl
  next => exact grows_mint rfl rfl

theorem grows_publishFile (m : PreviewManager) (expiresInSeconds now later : ℤ) :
    Grows m (m.publishFile crypto expiresInSeconds now later) :=
  ((grows_prune m now).trans
    (grows_foldl (fun m (oldest : FilePublication) => grows_unpublish m oldest.id) _ _)).trans (grows_mint rfl rfl)

theorem grows_openForManagement (m : PreviewManager) (id : String) (surface : PreviewSurface)
    (access : Except String PreviewAccess) (now later : ℤ) :
    Grows m (m.openForManagement crypto id surface access now later) := by
  have hpru:=grows_prune m now
  unfold PreviewManager.openForManagement
  dsimp only
  split
  next => exact hpru
  next => exact hpru
  next publication granted hloo =>
    generalize (if surface=.localSurface then some granted.publicBaseUrl else granted.remoteBaseUrl)=base
    split
    · exact hpru
    · exact hpru.trans (grows_mint rfl rfl)

theorem grows_redeemManagementTicket (m : PreviewManager) (request : PreviewRequest) (id : String)
    (publication : Publication) (later : ℤ) : Grows m (m.redeemManagementTicket crypto request id publication later).2 := by
  unfold PreviewManager.redeemManagementTicket
  split
  next => exact .refl m
  next =>
    split
    next => exact .refl m
    next =>
      split
      · exact .refl m
      · exact grows_mint rfl rfl

theorem grows_handle (m : PreviewManager) (id : String) (request : PreviewRequest) (now later : ℤ) :
    Grows m (m.handle crypto id request now later).2 := by
  have hpru:=grows_prune m now
  unfold PreviewManager.handle
  dsimp only
  split
  next => exact hpru
  next publication hloo =>
    have hred:=hpru.trans (@grows_redeemManagementTicket crypto _ request id publication later)
    split
    next hres =>
      rw [hres] at hred
      exact hred
    next hres =>
      rw [hres] at hred
      split
      · exact hred
      · exact hred

theorem grows_step (m : PreviewManager) (action : PreviewAction) : Grows m (m.step crypto action) := by
  cases action with
  | publish => exact grows_publish m _ _ _ _ _ _
  | publishFile => exact grows_publishFile m _ _ _
  | share => exact grows_share m _ _ _ _ _
  | revokeShare id => exact grows_revokeShare m id
  | openForManagement => exact grows_openForManagement m _ _ _ _ _
  | revokeForManagement id now => exact (grows_prune m now).trans (grows_unpublish _ id)
  | unpublish id => exact grows_unpublish m id
  | clear => exact grows_clear m
  | list now => exact grows_prune m now
  | removeStoppedPort id =>
    show Grows m (m.removeStoppedPort id)
    unfold PreviewManager.removeStoppedPort
    split
    · exact grows_unpublish m id
    · exact .refl m
  | expiryTimer id =>
    show Grows m (m.expiryTimer id)
    unfold PreviewManager.expiryTimer
    split
    · exact grows_unpublish m id
    · exact .refl m
  | shareExpiryTimer id =>
    show Grows m (m.shareExpiryTimer id)
    unfold PreviewManager.shareExpiryTimer
    split
    · exact grows_revokeShare m id
    · exact .refl m
  | handle => exact grows_handle m _ _ _ _
  | handleUpgrade id request now later =>
    show Grows m (m.handleUpgrade crypto id request now later).2
    unfold PreviewManager.handleUpgrade
    dsimp only
    split
    · exact grows_prune m now
    · exact grows_prune m now

theorem grows_of_run {actions : List PreviewAction} (h : (previewSystem crypto).Run m actions m') : Grows m m' := by
  apply h.relates
  · exact Grows.refl
  · exact fun _ _ _ => Grows.trans
  · intro s action t hste
    cases hste
    exact grows_step s action

/-- The publication or its share has not expired. -/
def Unexpired (now : ℤ) (entry : String × Publication) : Prop :=
  match entry.2 with
  | .file publication => now<publication.expiresAt
  | .port publication => ∀ share, publication.share=some share → now<share.expiresAt

variable {entry : String × Publication} {id : String}

theorem mem_revokeShare (hkey : (m.publications.map Prod.fst).Nodup)
    (h : entry ∈ (m.revokeShare id).publications) :
    (∃ p : PortPublication, entry.2 = .port p ∧ p.share=none) ∨
      entry ∈ m.publications ∧ ∀ p s, entry=(id,.port p) → p.share≠some s := by
  unfold PreviewManager.revokeShare at h
  dsimp only at h
  split at h
  next publication hloo =>
    split at h
    next =>
      rcases mem_mapSet_of_nodup hkey h with heq | ⟨hmem,hid⟩
      · exact Or.inl ⟨{ publication with share := none },congrArg Prod.snd heq,rfl⟩
      · exact Or.inr ⟨hmem,fun p s heq => absurd (congrArg Prod.fst heq) hid⟩
    next huns =>
      refine Or.inr ⟨h,fun p s heq hs => huns ?_⟩
      subst heq
      cases hloo.symm.trans (lookup_of_mem hkey h)
      rw [hs]
      rfl
  next hoth =>
    refine Or.inr ⟨h,fun p s heq => ?_⟩
    subst heq
    exact absurd (lookup_of_mem hkey h) (hoth p)

theorem mem_pruneEntry (hkey : (m.publications.map Prod.fst).Nodup) {now : ℤ} {pruned : String × Publication}
    (h : entry ∈ (m.pruneEntry now pruned).publications) :
    Unexpired now entry ∨ entry ∈ m.publications ∧ (entry=pruned → Unexpired now pruned) := by
  obtain ⟨id,pruned⟩ := pruned
  unfold PreviewManager.pruneEntry at h
  dsimp only at h
  split at h
  next publication =>
    split at h
    next =>
      obtain ⟨hmem,hid⟩ := mem_unpublish h
      exact Or.inr ⟨hmem,fun heq => absurd (congrArg Prod.fst heq) hid⟩
    next hlat => exact Or.inr ⟨h,fun _ => Int.not_le.1 hlat⟩
  next publication =>
    split at h
    next share hsha =>
      split at h
      next =>
        rcases mem_revokeShare hkey h with ⟨p,hp,hnon⟩ | ⟨hmem,hoth⟩
        · left
          unfold Unexpired
          rw [hp]
          exact fun other hsha => nomatch hnon.symm.trans hsha
        · exact Or.inr ⟨hmem,fun heq => absurd hsha (hoth publication share heq)⟩
      next hlat =>
        refine Or.inr ⟨h,fun _ other hoth => ?_⟩
        cases hsha.symm.trans hoth
        exact Int.not_le.1 hlat
    next hnon =>
      refine Or.inr ⟨h,fun _ other hoth => ?_⟩
      cases hnon.symm.trans hoth

theorem mem_pruneEntries {now : ℤ} (l : List (String × Publication)) :
    ∀ {m}, Confined crypto m → entry ∈ (l.foldl (pruneEntry now) m).publications →
      Unexpired now entry ∨ entry ∈ m.publications ∧ (entry ∈ l → Unexpired now entry) := by
  induction l with
  | nil => exact fun _ h => Or.inr ⟨h,fun hnil => nomatch hnil⟩
  | cons pruned rest ih =>
    intro m hm h
    rcases ih (hm.pruneEntry now pruned) h with hliv | ⟨hmem,hres⟩
    · exact Or.inl hliv
    · rcases mem_pruneEntry hm.keys hmem with hliv | ⟨hbef,hfir⟩
      · exact Or.inl hliv
      · refine Or.inr ⟨hbef,fun hin => ?_⟩
        rcases mem_cons.1 hin with rfl | hin
        · exact hfir rfl
        · exact hres hin

theorem unexpired_prune (h : Confined crypto m) {now : ℤ}
    (hmem : entry ∈ (m.prune now).publications) : Unexpired now entry := by
  rcases mem_pruneEntries m.publications h hmem with hliv | ⟨hbef,hin⟩
  · exact hliv
  · exact hin hbef

theorem Opens.unexpired (h : Confined crypto m) {now : ℤ} {hash : String} {expiresAt : Option ℤ}
    (hope : Opens (m.prune now) hash id secret expiresAt) : ∀ t ∈ expiresAt, now<t := by
  have hgra : ∀ entry grants, entry ∈ List.filter (liveGrant now (m.publications.foldl (pruneEntry now) m)) grants →
      now<entry.2.expiresAt := by
    intro entry grants hent
    have hliv:=(mem_filter.1 hent).2
    unfold liveGrant at hliv
    simp only [Bool.and_eq_true,decide_eq_true_eq] at hliv
    exact hliv.1
  intro t ht
  cases hope with
  | owner hmem => cases ht
  | share hmem hs =>
    cases ht
    exact unexpired_prune h hmem _ hs
  | file hmem =>
    cases ht
    exact unexpired_prune h hmem
  | ticket hmem =>
    cases ht
    exact hgra _ _ hmem
  | session hmem =>
    cases ht
    exact hgra _ _ hmem

/- On a surface that the token is for. A ticket is not used twice. -/
def Presents (m : PreviewManager) (id : String) (request : PreviewRequest) (token : String) : PreviewSecret → Prop
  | .owner => request.presented id=some token ∧ request.access=.localSurface
  | .share => request.presented id=some token ∧ request.access=.remoteSurface
  | .file => request.presented id=some token
  | .session access => request.presented id=some token ∧ request.access=access
  | .ticket access => request.ticket=some token ∧ request.namedAccess=some access ∧
      ∀ pair ∈ m.redeemed, pair.1≠token

/-- The request has the token, which was made for the publication; it has not been taken back
and has not expired. -/
structure Entitled (m : PreviewManager) (id : String) (request : PreviewRequest) (now : ℤ) (mint : Mint) : Prop where
  minted : mint ∈ m.minted
  publication : mint.publication=id
  unrevoked : mint.token ∉ m.revoked
  unexpired : ∀ t ∈ mint.expiresAt, now<t
  presented : Presents m id request mint.token mint.secret

/- `prune` makes no tokens, and no ticket is used. -/
theorem minted_prune (m : PreviewManager) (now : ℤ) :
    (m.prune now).minted=m.minted ∧ (m.prune now).redeemed=m.redeemed := by
  have hunp : ∀ m id, (unpublish id m).minted=m.minted ∧ (unpublish id m).redeemed=m.redeemed := by
    intro m id
    unfold PreviewManager.unpublish
    dsimp only
    split
    · exact ⟨rfl,rfl⟩
    · exact ⟨rfl,rfl⟩
  have hrevokeShare : ∀ m id, (revokeShare id m).minted=m.minted ∧ (revokeShare id m).redeemed=m.redeemed := by
    intro m id
    unfold PreviewManager.revokeShare
    dsimp only
    split
    next => split <;> exact ⟨rfl,rfl⟩
    next => exact ⟨rfl,rfl⟩
  have hent : ∀ m entry, (pruneEntry now m entry).minted=m.minted ∧ (pruneEntry now m entry).redeemed=m.redeemed := by
    intro m entry
    unfold PreviewManager.pruneEntry
    split
    next => split; exacts [hunp m _,⟨rfl,rfl⟩]
    next =>
      split
      next => split; exacts [hrevokeShare m _,⟨rfl,rfl⟩]
      next => exact ⟨rfl,rfl⟩
  have hfol : ∀ (l : List (String × Publication)) m, (l.foldl (pruneEntry now) m).minted=m.minted ∧
      (l.foldl (pruneEntry now) m).redeemed=m.redeemed := by
    intro l
    induction l with
    | nil => exact fun m => ⟨rfl,rfl⟩
    | cons entry rest ih => exact fun m => ⟨(ih _).1.trans (hent m entry).1,(ih _).2.trans (hent m entry).2⟩
  exact hfol m.publications m

variable {request : PreviewRequest}

/- A hash that is kept is that of one token. -/
theorem Opens.entitled (h : Confined crypto m) (distinct : Distinct crypto) {now : ℤ} {token : String}
    {expiresAt : Option ℤ} (hope : Opens (m.prune now) (crypto.digest token) id secret expiresAt)
    (hpre : Presents m id request token secret) : ∃ mint, Entitled m id request now mint := by
  obtain ⟨made,hmad,hdig,hliv⟩ := (h.prune now).backed _ _ _ _ hope
  cases distinct.digest hdig
  refine ⟨⟨token,id,secret,expiresAt⟩,?_,rfl,fun hrev => hliv ((grows_prune m now).revoked _ hrev),
    hope.unexpired h,hpre⟩
  rwa [(minted_prune m now).1] at hmad

variable {scope : PreviewConnectionScope} {publication : Publication} {now later : ℤ}

theorem entitled_of_valid (h : Confined crypto m) (distinct : Distinct crypto) {token : String}
    (hloo : (m.prune now).publications.lookup id=some publication) (hpre : request.presented id=some token)
    (hval : (m.prune now).validPreviewToken crypto request id publication token later=some scope) :
    ∃ mint, Entitled m id request now mint := by
  have hmem:=mem_of_lookup hloo
  -- the session is tried last, for either kind of publication
  have hses : (∃ session, (m.prune now).managementSessions.lookup (crypto.digest token)=some session ∧
      session.publicationId=id ∧ session.access=request.access) → ∃ mint, Entitled m id request now mint := by
    intro hfou
    obtain ⟨session,hfou,rfl,hacc⟩ := hfou
    exact (Opens.session (mem_of_lookup hfou)).entitled h distinct ⟨hpre,hacc.symm⟩
  unfold PreviewManager.validPreviewToken at hval
  dsimp only at hval
  split at hval
  next file =>
    split at hval
    next hhas =>
      have hope:=Opens.file hmem
      rw [← hhas] at hope
      exact hope.entitled h distinct hpre
    next => exact hses (session_of_some rfl hval)
  next port =>
    split at hval
    next hfit =>
      have hope:=Opens.owner hmem
      rw [← hfit.2] at hope
      exact hope.entitled h distinct ⟨hpre,hfit.1⟩
    next =>
      split at hval
      next share hsha =>
        split at hval
        next hfit =>
          have hope:=Opens.share hmem hsha
          rw [← hfit.2.2] at hope
          exact hope.entitled h distinct ⟨hpre,hfit.1⟩
        next => exact hses (session_of_some rfl hval)
      next => exact hses (session_of_some rfl hval)

theorem entitled_of_redeemed (h : Confined crypto m) (distinct : Distinct crypto)
    (hred : ((m.prune now).redeemManagementTicket crypto request id publication later).1=true) :
    ∃ mint, Entitled m id request now mint := by
  unfold PreviewManager.redeemManagementTicket at hred
  split at hred
  next => cases hred
  next token htok =>
    split at hred
    next => cases hred
    next ticket htic =>
      split at hred
      next => cases hred
      next hval =>
        have hmem:=mem_of_lookup htic
        have hid : ticket.publicationId=id := by
          by_contra hne
          exact hval (Or.inr (Or.inl hne))
        have hacc : request.namedAccess=some ticket.access := by
          by_contra hne
          exact hval (Or.inr (Or.inr (Or.inr hne)))
        subst hid
        refine (Opens.ticket hmem).entitled h distinct ⟨htok,hacc,fun pair hpai heq => ?_⟩
        rw [← (minted_prune m now).2] at hpai
        exact (h.prune now).unredeemed _ hmem pair hpai (congrArg crypto.digest heq)

theorem eq_of_not_redeemed (h : m.redeemManagementTicket crypto request id publication later=(false,m')) : m'=m := by
  unfold PreviewManager.redeemManagementTicket at h
  split at h
  next =>
    cases h
    rfl
  next =>
    split at h
    next =>
      cases h
      rfl
    next =>
      split at h
      next =>
        cases h
        rfl
      next => cases h

/- What is served is served to a token. -/
theorem entitled_of_handle (h : Confined crypto m) (distinct : Distinct crypto)
    (hser : (m.handle crypto id request now later).1=some scope) : ∃ mint, Entitled m id request now mint := by
  unfold PreviewManager.handle at hser
  dsimp only at hser
  split at hser
  next => cases hser
  next publication hloo =>
    split at hser
    next hres =>
      apply entitled_of_redeemed h distinct
      rw [hres]
    next hres =>
      split at hser
      next => cases hser
      next token hpre =>
        cases eq_of_not_redeemed hres
        split at hser
        next => cases hser
        next => exact entitled_of_valid h distinct hloo hpre hser

theorem entitled_of_handleUpgrade (h : Confined crypto m) (distinct : Distinct crypto)
    (hser : (m.handleUpgrade crypto id request now later).1=some scope) :
    ∃ mint, Entitled m id request now mint := by
  unfold PreviewManager.handleUpgrade at hser
  dsimp only at hser
  split at hser
  next publication token hloo hpre =>
    split at hser
    next => cases hser
    next => exact entitled_of_valid h distinct hloo hpre hser
  next => cases hser

/-- Whatever the manager has done, a publication is served only to who has a token that was made
for it, on a surface it was made for, before it expires and before it is taken back. Each ticket
gives one session, no token is made for two publications, and no ID is given twice. -/
theorem preview_capabilities_confined (distinct : Distinct crypto) (hreach : (previewSystem crypto).Reachable m) :
    (∀ id request now later scope,
      (m.handle crypto id request now later).1=some scope ∨
        (m.handleUpgrade crypto id request now later).1=some scope → ∃ mint, Entitled m id request now mint) ∧
    (m.redeemed.map Prod.fst).Nodup ∧
    (∀ mint ∈ m.minted, ∀ access, mint.secret=.session access → ∃ ticket ∈ m.minted,
      (ticket.token,mint.token) ∈ m.redeemed ∧ ticket.publication=mint.publication ∧ ticket.secret=.ticket access) ∧
    m.created.Nodup ∧ (∀ entry ∈ m.publications, entry.1 ∈ m.created) ∧
    ∀ actions m', (previewSystem crypto).Run m actions m' →
      (∀ mint ∈ m.minted, ∀ other ∈ m'.minted, other.token=mint.token → other=mint) ∧
      ∀ token ∈ m.revoked, token ∈ m'.revoked := by
  have h:=confined_of_reachable distinct hreach
  refine ⟨fun id request now later scope hserved => ?_,h.once,h.granted,h.named,h.created,fun actions m' hrun => ?_⟩
  · rcases hserved with hserved | hserved
    · exact entitled_of_handle h distinct hserved
    · exact entitled_of_handleUpgrade h distinct hserved
  · have hgro:=grows_of_run hrun
    have haft:=confined_of_reachable distinct (hreach.run hrun)
    exact ⟨fun mint hmin other hoth => haft.mint_unique hoth (hgro.minted mint hmin),hgro.revoked⟩

end Steps

def letters (n : ℕ) : String := String.ofList (List.replicate (n+1) 'a')

theorem letters_injective : Function.Injective letters := by
  intro n m h
  have hlen:=congrArg String.length h
  simpa [letters] using hlen

def exampleCrypto : PreviewCrypto := ⟨fun token => "sha256:" ++ token,letters,letters⟩

theorem exampleCrypto_distinct : Distinct exampleCrypto where
  digest := fun token token' h => by
    have hlis:=congrArg String.toList h
    simp only [exampleCrypto,String.toList_append,append_cancel_left_eq] at hlis
    exact String.toList_injective hlis
  randomToken := letters_injective
  randomId := letters_injective

def exampleAccess : PreviewAccess := ⟨"http://localhost:7777",some "https://remote.example"⟩

def exampleActions : List PreviewAction :=
  [.publish 3000 none (.ok exampleAccess) 1000 1000 1000,.share "a" 3600 (.ok exampleAccess) 2000 2000]

def exampleRequest : PreviewRequest := ⟨some "external",none,some "aa",none⟩

/-- The second token opens the port from outside. -/
theorem preview_capabilities_confined_example : ∃ m, (previewSystem exampleCrypto).Reachable m ∧
    (m.handle exampleCrypto "a" exampleRequest 3000 3000).1=some .share ∧
    ∃ mint, Entitled m "a" exampleRequest 3000 mint := by
  have hexe : ((previewSystem exampleCrypto).exec create exampleActions).map
      (fun m => (m.handle exampleCrypto "a" exampleRequest 3000 3000).1)=some (some .share) := by
    decide
  obtain ⟨m,hm,hser⟩ := Option.map_eq_some_iff.1 hexe
  have hrea : (previewSystem exampleCrypto).Reachable m := ⟨_,_,rfl,TransitionSystem.run_of_exec hm⟩
  exact ⟨m,hrea,hser,
    (preview_capabilities_confined exampleCrypto_distinct hrea).1 _ _ _ 3000 _ (Or.inl hser)⟩

end Qubicl.Control.Previews
