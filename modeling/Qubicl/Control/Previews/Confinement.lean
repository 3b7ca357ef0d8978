import Qubicl.Control.Previews.Manager

/-!
# What the tokens of previews open
-/

namespace Qubicl.Control.Previews
open Foundation PreviewManager List

/-- SHA-256 has no collisions, and random tokens and IDs do not come twice. -/
structure Distinct (crypto : PreviewCrypto) : Prop where
  digest : Function.Injective crypto.digest
  randomToken : Function.Injective crypto.randomToken
  randomId : Function.Injective crypto.randomId

/-- The manager keeps a hash that opens the publication, for what it says and until then. -/
inductive Opens (m : PreviewManager) : String → String → PreviewSecret → Option ℤ → Prop
  | owner {id : String} {p : PortPublication} (h : (id,Publication.port p) ∈ m.publications) :
      Opens m p.ownerTokenHash id .owner none
  | share {id : String} {p : PortPublication} {s : PortShare} (h : (id,Publication.port p) ∈ m.publications)
      (hs : p.share=some s) : Opens m s.tokenHash id .share (some s.expiresAt)
  | file {id : String} {p : FilePublication} (h : (id,Publication.file p) ∈ m.publications) :
      Opens m p.tokenHash id .file (some p.expiresAt)
  | ticket {hash : String} {g : ManagementGrant} (h : (hash,g) ∈ m.managementTickets) :
      Opens m hash g.publicationId (.ticket g.access) (some g.expiresAt)
  | session {hash : String} {g : ManagementGrant} (h : (hash,g) ∈ m.managementSessions) :
      Opens m hash g.publicationId (.session g.access) (some g.expiresAt)

/-- It is the hash of a token that was made for that and was not taken back. -/
def Backed (crypto : PreviewCrypto) (m : PreviewManager) (hash id : String) (secret : PreviewSecret)
    (expiresAt : Option ℤ) : Prop :=
  ∃ token, ⟨token,id,secret,expiresAt⟩ ∈ m.minted ∧ crypto.digest token=hash ∧ token ∉ m.revoked

structure Confined (crypto : PreviewCrypto) (m : PreviewManager) : Prop where
  keys : (m.publications.map Prod.fst).Nodup
  backed : ∀ hash id secret expiresAt, Opens m hash id secret expiresAt → Backed crypto m hash id secret expiresAt
  tickets : ∀ entry ∈ m.managementTickets, (m.publications.lookup entry.2.publicationId).isSome
  sessions : ∀ entry ∈ m.managementSessions, (m.publications.lookup entry.2.publicationId).isSome
  tokens : (m.minted.map Mint.token).Nodup
  drawn : ∀ mint ∈ m.minted, ∃ k < m.drawn, mint.token=crypto.randomToken k
  revoked : ∀ token ∈ m.revoked, ∃ mint ∈ m.minted, mint.token=token
  unredeemed : ∀ entry ∈ m.managementTickets, ∀ pair ∈ m.redeemed, crypto.digest pair.1≠entry.1
  once : (m.redeemed.map Prod.fst).Nodup
  redeemed : ∀ pair ∈ m.redeemed, ∃ k < m.drawn, pair.1=crypto.randomToken k
  granted : ∀ mint ∈ m.minted, ∀ access, mint.secret=.session access → ∃ ticket ∈ m.minted,
    (ticket.token,mint.token) ∈ m.redeemed ∧ ticket.publication=mint.publication ∧ ticket.secret=.ticket access
  named : m.created.Nodup
  created : ∀ entry ∈ m.publications, entry.1 ∈ m.created
  ids : ∀ id ∈ m.created, ∃ k < m.ids, id=crypto.randomId k

variable {entry : String × Publication} {expiresAt : Option ℤ} {hash id key : String} {p : Publication}
  {secret : PreviewSecret}

section Steps
variable {crypto : PreviewCrypto} {m m' : PreviewManager}

theorem Confined.mint_unique (h : Confined crypto m) {left right : Mint} (hlef : left ∈ m.minted)
    (hrig : right ∈ m.minted) (htok : left.token=right.token) : left=right :=
  inj_on_of_nodup_map h.tokens hlef hrig htok

/- Tokens are taken back that are for something else. -/
theorem Confined.backed_revokes (h : Confined crypto m) {p : Mint → Bool}
    (hbac : Backed crypto m hash id secret expiresAt) (hoth : ∀ token, p ⟨token,id,secret,expiresAt⟩=false) :
    Backed crypto (m.revokes p) hash id secret expiresAt := by
  obtain ⟨token,hmit,hdig,hliv⟩ := hbac
  refine ⟨token,hmit,hdig,fun hrev => ?_⟩
  rcases mem_append.1 hrev with hnow | hbefore
  · obtain ⟨mint,hmem,htok⟩ := mem_map.1 hnow
    obtain ⟨hmin,hp⟩ := mem_filter.1 hmem
    rw [h.mint_unique hmin hmit htok,hoth] at hp
    cases hp
  · exact hliv hbefore

/-- Something is taken away, and no token is taken back yet. -/
structure Narrowed (m m' : PreviewManager) : Prop where
  opens : ∀ hash id secret expiresAt, Opens m' hash id secret expiresAt → Opens m hash id secret expiresAt
  keys : (m'.publications.map Prod.fst).Nodup
  created : ∀ entry ∈ m'.publications, ∃ old ∈ m.publications, old.1=entry.1
  tickets : ∀ entry ∈ m'.managementTickets,
    entry ∈ m.managementTickets ∧ (m'.publications.lookup entry.2.publicationId).isSome
  sessions : ∀ entry ∈ m'.managementSessions, (m'.publications.lookup entry.2.publicationId).isSome
  revoked : m'.revoked=m.revoked
  minted : m'.minted=m.minted
  drawn : m'.drawn=m.drawn
  redeemed : m'.redeemed=m.redeemed
  named : m'.created=m.created
  ids : m'.ids=m.ids

theorem Confined.narrowed (h : Confined crypto m) (hn : Narrowed m m') : Confined crypto m' where
  keys := hn.keys
  backed := fun hash id secret expiresAt hope => by
    unfold Backed
    rw [hn.minted,hn.revoked]
    exact h.backed hash id secret expiresAt (hn.opens hash id secret expiresAt hope)
  tickets := fun entry hent => (hn.tickets entry hent).2
  sessions := hn.sessions
  tokens := by
    rw [hn.minted]
    exact h.tokens
  drawn := by
    rw [hn.minted,hn.drawn]
    exact h.drawn
  revoked := by
    rw [hn.revoked,hn.minted]
    exact h.revoked
  unredeemed := fun entry hent => by
    rw [hn.redeemed]
    exact h.unredeemed entry (hn.tickets entry hent).1
  once := by
    rw [hn.redeemed]
    exact h.once
  redeemed := by
    rw [hn.redeemed,hn.drawn]
    exact h.redeemed
  granted := by
    rw [hn.minted,hn.redeemed]
    exact h.granted
  named := by
    rw [hn.named]
    exact h.named
  created := fun entry hent => by
    obtain ⟨old,hold,hkey⟩ := hn.created entry hent
    rw [hn.named,← hkey]
    exact h.created old hold
  ids := by
    rw [hn.named,hn.ids]
    exact h.ids

theorem isSome_lookup (hkey : (m.publications.map Prod.fst).Nodup) (hmem : (id,p) ∈ m.publications) :
    (m.publications.lookup id).isSome := by
  rw [lookup_of_mem hkey hmem]
  rfl

theorem Confined.live (hm : Confined crypto m) (h : Opens m hash id secret expiresAt) :
    (m.publications.lookup id).isSome := by
  cases h with
  | owner hmem => exact isSome_lookup hm.keys hmem
  | share hmem hs => exact isSome_lookup hm.keys hmem
  | file hmem => exact isSome_lookup hm.keys hmem
  | ticket hmem => exact hm.tickets _ hmem
  | session hmem => exact hm.sessions _ hmem

theorem Opens.of_subset (h : Opens m' hash id secret expiresAt)
    (hpub : ∀ entry ∈ m'.publications, entry ∈ m.publications)
    (htic : ∀ entry ∈ m'.managementTickets, entry ∈ m.managementTickets)
    (hses : ∀ entry ∈ m'.managementSessions, entry ∈ m.managementSessions) : Opens m hash id secret expiresAt := by
  cases h with
  | owner hmem => exact .owner (hpub _ hmem)
  | share hmem hs => exact .share (hpub _ hmem) hs
  | file hmem => exact .file (hpub _ hmem)
  | ticket hmem => exact .ticket (htic _ hmem)
  | session hmem => exact .session (hses _ hmem)

section
variable (h : Confined crypto m)
include h

theorem Confined.revokes {p : Mint → Bool}
    (hoth : ∀ hash id secret expiresAt, Opens m hash id secret expiresAt →
      ∀ token expiry, p ⟨token,id,secret,expiry⟩=false) : Confined crypto (m.revokes p) :=
  { h with
    backed := fun hash id secret expiresAt hope => by
      have hbef : Opens m hash id secret expiresAt := hope.of_subset (fun _ h => h) (fun _ h => h) fun _ h => h
      exact h.backed_revokes (h.backed hash id secret expiresAt hbef) fun token =>
        hoth hash id secret expiresAt hbef token expiresAt
    revoked := fun token htok => by
      rcases mem_append.1 htok with hnow | hold
      · obtain ⟨mint,hmem,htok⟩ := mem_map.1 hnow
        exact ⟨mint,(mem_filter.1 hmem).1,htok⟩
      · exact h.revoked token hold }

theorem Confined.withdrawn (id : String) : Narrowed m
    { m with
      publications := mapDelete id m.publications
      managementTickets := m.managementTickets.filter (·.2.publicationId≠id)
      managementSessions := m.managementSessions.filter (·.2.publicationId≠id)
      expiryTimers := m.expiryTimers.filter (· ≠ id)
      shareExpiryTimers := m.shareExpiryTimers.filter (· ≠ id) } where
  opens := fun hash id' secret expiresAt hope =>
    hope.of_subset (fun _ hmem => (mem_mapDelete.1 hmem).1) (fun _ hmem => (mem_filter.1 hmem).1)
      fun _ hmem => (mem_filter.1 hmem).1
  keys := nodup_filter h.keys _
  created := fun entry hent => ⟨entry,(mem_mapDelete.1 hent).1,rfl⟩
  tickets := fun entry hent => by
    obtain ⟨hmem,hoth⟩ := mem_filter.1 hent
    refine ⟨hmem,?_⟩
    rw [lookup_mapDelete,if_neg (by simpa using hoth)]
    exact h.tickets entry hmem
  sessions := fun entry hent => by
    obtain ⟨hmem,hoth⟩ := mem_filter.1 hent
    rw [lookup_mapDelete,if_neg (by simpa using hoth)]
    exact h.sessions entry hmem
  revoked := rfl
  minted := rfl
  drawn := rfl
  redeemed := rfl
  named := rfl
  ids := rfl

theorem Confined.unpublish (id : String) : Confined crypto (m.unpublish id) := by
  unfold PreviewManager.unpublish
  dsimp only
  split
  next hnon =>
    refine h.revokes fun hash id' secret expiresAt hope token expiry => ?_
    have hliv:=h.live hope
    have hne : id'≠id := by
      rintro rfl
      rw [show m.publications.lookup id'=none from hnon] at hliv
      cases hliv
    simpa using hne
  next =>
    have haft:=h.narrowed (h.withdrawn id)
    refine haft.revokes fun hash id' secret expiresAt hope token expiry => ?_
    have hliv:=haft.live hope
    have hne : id'≠id := by
      rintro rfl
      rw [lookup_mapDelete,if_pos rfl] at hliv
      cases hliv
    simpa using hne

theorem Confined.unshared {publication : PortPublication} (hloo : m.publications.lookup id=some (.port publication)) :
    Narrowed m
    { m with
      publications := mapSet id (.port { publication with share := none }) m.publications
      shareExpiryTimers := m.shareExpiryTimers.filter (· ≠ id) } := by
  have hliv : ∀ key, (m.publications.lookup key).isSome →
      ((mapSet id (.port { publication with share := none }) m.publications).lookup key).isSome := by
    intro key hsom
    rw [lookup_mapSet]
    split
    · rfl
    · exact hsom
  exact {
    opens := fun hash id' secret expiresAt hope => by
      cases hope with
      | owner hmem =>
        rcases mem_mapSet hmem with heq | hold
        · cases heq
          exact Opens.owner (p := publication) (mem_of_lookup hloo)
        · exact .owner hold
      | share hmem hs =>
        rcases mem_mapSet hmem with heq | hold
        · cases heq
          cases hs
        · exact .share hold hs
      | file hmem =>
        rcases mem_mapSet hmem with heq | hold
        · cases heq
        · exact .file hold
      | ticket hmem => exact .ticket hmem
      | session hmem => exact .session hmem
    keys := nodup_mapSet h.keys
    created := fun entry hent => by
      rcases mem_mapSet hent with rfl | hold
      · exact ⟨_,mem_of_lookup hloo,rfl⟩
      · exact ⟨entry,hold,rfl⟩
    tickets := fun entry hent => ⟨hent,hliv _ (h.tickets entry hent)⟩
    sessions := fun entry hent => hliv _ (h.sessions entry hent)
    revoked := rfl
    minted := rfl
    drawn := rfl
    redeemed := rfl
    named := rfl
    ids := rfl }

/- Where the publication has no share, no token for a share of it opens anything. -/
theorem Confined.revokes_share (hnon : ∀ p s, m.publications.lookup id=some (.port p) → p.share≠some s) :
    Confined crypto (m.revokes fun mint => mint.publication=id && mint.secret=.share) := by
  refine h.revokes fun hash id' secret expiresAt hope token expiry => ?_
  by_cases hid : id'=id
  · subst hid
    cases hope with
    | share hmem hs => exact absurd hs (hnon _ _ (lookup_of_mem h.keys hmem))
    | owner hmem => simp
    | file hmem => simp
    | ticket hmem => simp
    | session hmem => simp
  · simp [hid]

theorem Confined.revokeShare (id : String) : Confined crypto (m.revokeShare id) := by
  unfold PreviewManager.revokeShare
  dsimp only
  split
  next publication hloo =>
    split
    next hsha =>
      refine (h.narrowed (h.unshared hloo)).revokes_share fun p s hp hs => ?_
      rw [lookup_mapSet,if_pos rfl] at hp
      cases hp
      cases hs
    next huns =>
      refine h.revokes_share fun p s hp hs => ?_
      cases hp.symm.trans hloo
      rw [hs] at huns
      exact huns rfl
  next hoth => exact h.revokes_share fun p s hp => absurd hp (hoth p)

end

theorem Confined.foldl {α : Type} {f : PreviewManager → α → PreviewManager}
    (hf : ∀ m a, Confined crypto m → Confined crypto (f m a)) (l : List α) :
    ∀ {m}, Confined crypto m → Confined crypto (l.foldl f m) := by
  induction l with
  | nil => exact fun h => h
  | cons a rest ih => exact fun h => ih (hf _ a h)

theorem Confined.grants (h : Confined crypto m) {tickets sessions : List (String × ManagementGrant)}
    (htic : ∀ entry ∈ tickets, entry ∈ m.managementTickets)
    (hses : ∀ entry ∈ sessions, entry ∈ m.managementSessions) :
    Confined crypto { m with managementTickets := tickets, managementSessions := sessions } :=
  h.narrowed {
    opens := fun _ _ _ _ hope => hope.of_subset (fun _ hmem => hmem) htic hses
    keys := h.keys
    created := fun entry hent => ⟨entry,hent,rfl⟩
    tickets := fun entry hent => ⟨htic entry hent,h.tickets entry (htic entry hent)⟩
    sessions := fun entry hent => h.sessions entry (hses entry hent)
    revoked := rfl
    minted := rfl
    drawn := rfl
    redeemed := rfl
    named := rfl
    ids := rfl }

theorem Confined.pruneEntry (h : Confined crypto m) (now : ℤ) (entry : String × Publication) :
    Confined crypto (m.pruneEntry now entry) := by
  unfold PreviewManager.pruneEntry
  split
  next => split; exacts [h.unpublish _,h]
  next =>
    split
    next => split; exacts [h.revokeShare _,h]
    next => exact h

theorem Confined.prune (h : Confined crypto m) (now : ℤ) : Confined crypto (m.prune now) :=
  (Confined.foldl (fun _ entry hm => hm.pruneEntry now entry) m.publications h).grants
    (fun _ hmem => (mem_filter.1 hmem).1) fun _ hmem => (mem_filter.1 hmem).1

theorem Confined.pruneFilePublications (h : Confined crypto m) : Confined crypto m.pruneFilePublications :=
  Confined.foldl (fun _ oldest hm => hm.unpublish oldest.id) _ h

theorem mem_unpublish (h : entry ∈ (m.unpublish id).publications) : entry ∈ m.publications ∧ entry.1≠id := by
  unfold PreviewManager.unpublish at h
  dsimp only at h
  split at h
  next hnon =>
    refine ⟨h,fun hid => ?_⟩
    have hoth:=lookup_eq_none_iff.1 hnon entry h
    rw [hid] at hoth
    simp at hoth
  next => exact mem_mapDelete.1 h

theorem mem_unpublish_all (ids : List String) :
    ∀ {m : PreviewManager}, entry ∈ (ids.foldl (fun m id => m.unpublish id) m).publications →
      entry ∈ m.publications ∧ entry.1 ∉ ids := by
  induction ids with
  | nil => exact fun h => ⟨h,not_mem_nil⟩
  | cons id rest ih =>
    intro m h
    obtain ⟨hmem,hres⟩ := ih h
    obtain ⟨hbef,hid⟩ := mem_unpublish hmem
    exact ⟨hbef,fun hin => (mem_cons.1 hin).elim hid hres⟩

theorem Confined.clear (h : Confined crypto m) : Confined crypto m.clear := by
  have hgon:=Confined.foldl (fun _ id hm => hm.unpublish id) (m.publications.map Prod.fst) h
  have hemp:=@Confined.grants crypto _ hgon [] [] (by simp) (by simp)
  refine hemp.revokes fun hash id secret expiresAt hope => ?_
  have hliv:=hemp.live hope
  obtain ⟨p,hp⟩ := Option.isSome_iff_exists.1 hliv
  obtain ⟨hmem,hnot⟩ := mem_unpublish_all _ (mem_of_lookup hp)
  exact absurd (mem_map.2 ⟨_,hmem,rfl⟩) hnot

/-- A new token opens what it is for; nothing else changes but, for a session, that the ticket is used up. -/
structure Minted (crypto : PreviewCrypto) (m m' : PreviewManager) (mint : Mint) : Prop where
  opens : ∀ hash id secret expiresAt, Opens m' hash id secret expiresAt → Opens m hash id secret expiresAt ∨
    hash=crypto.digest mint.token ∧ mint=⟨mint.token,id,secret,expiresAt⟩
  token : mint.token=crypto.randomToken m.drawn
  minted : m'.minted=mint::m.minted
  drawn : m'.drawn=m.drawn+1
  revoked : m'.revoked=m.revoked
  keys : (m'.publications.map Prod.fst).Nodup
  tickets : ∀ entry ∈ m'.managementTickets, (m'.publications.lookup entry.2.publicationId).isSome ∧
    (entry ∈ m.managementTickets ∨ entry.1=crypto.digest mint.token)
  sessions : ∀ entry ∈ m'.managementSessions, (m'.publications.lookup entry.2.publicationId).isSome
  redeemed : m'.redeemed=m.redeemed ∧ (∀ access, mint.secret≠.session access) ∨
    ∃ ticket access, m'.redeemed=(ticket.token,mint.token)::m.redeemed ∧ ticket ∈ m.minted ∧
      ticket.publication=mint.publication ∧ ticket.secret=.ticket access ∧ mint.secret=.session access ∧
      (∀ pair ∈ m.redeemed, pair.1≠ticket.token) ∧
      ∀ entry ∈ m'.managementTickets, entry ∈ m.managementTickets ∧ crypto.digest ticket.token≠entry.1
  created : m'.created=m.created ∧ m'.ids=m.ids ∨
    m'.created=crypto.randomId m.ids::m.created ∧ m'.ids=m.ids+1
  named : ∀ entry ∈ m'.publications, entry.1 ∈ m'.created

section
variable (h : Confined crypto m) (distinct : Distinct crypto)
include h distinct

theorem Confined.token_fresh {mint : Mint} (hmem : mint ∈ m.minted) :
    mint.token≠crypto.randomToken m.drawn := by
  obtain ⟨k,hk,htok⟩ := h.drawn mint hmem
  rw [htok]
  exact fun heq => Nat.ne_of_lt hk (distinct.randomToken heq)

theorem Confined.id_fresh :
    crypto.randomId m.ids ∉ m.created := by
  intro hmem
  obtain ⟨k,hk,hid⟩ := h.ids _ hmem
  exact Nat.ne_of_lt hk (distinct.randomId hid).symm

theorem Confined.minted {mint : Mint}
    (hn : Minted crypto m m' mint) : Confined crypto m' where
  keys := hn.keys
  backed := fun hash id secret expiresAt hope => by
    unfold Backed
    rw [hn.minted,hn.revoked]
    rcases hn.opens hash id secret expiresAt hope with hbef | ⟨hhas,hmit⟩
    · obtain ⟨token,hmem,hdig,hliv⟩ := h.backed hash id secret expiresAt hbef
      exact ⟨token,mem_cons_of_mem _ hmem,hdig,hliv⟩
    · refine ⟨mint.token,?_,hhas.symm,fun hrev => ?_⟩
      · rw [← hmit]
        exact mem_cons_self
      · obtain ⟨old,hold,htok⟩ := h.revoked _ hrev
        exact h.token_fresh distinct hold (htok.trans hn.token)
  tickets := fun entry hent => (hn.tickets entry hent).1
  sessions := hn.sessions
  tokens := by
    rw [hn.minted]
    refine nodup_cons.2 ⟨fun hmem => ?_,h.tokens⟩
    obtain ⟨old,hold,htok⟩ := mem_map.1 hmem
    exact h.token_fresh distinct hold (htok.trans hn.token)
  drawn := by
    rw [hn.minted,hn.drawn]
    intro old hold
    rcases mem_cons.1 hold with rfl | hmem
    · exact ⟨m.drawn,Nat.lt_succ_self _,hn.token⟩
    · obtain ⟨k,hk,htok⟩ := h.drawn old hmem
      exact ⟨k,Nat.lt_succ_of_lt hk,htok⟩
  revoked := by
    rw [hn.revoked,hn.minted]
    intro token htok
    obtain ⟨old,hold,heq⟩ := h.revoked token htok
    exact ⟨old,mem_cons_of_mem _ hold,heq⟩
  unredeemed := fun entry hent pair hpai => by
    have hbef : ∀ pair ∈ m.redeemed, crypto.digest pair.1≠entry.1 := by
      intro pair hpai
      rcases (hn.tickets entry hent).2 with hold | hnew
      · exact h.unredeemed entry hold pair hpai
      · obtain ⟨k,hk,htok⟩ := h.redeemed pair hpai
        rw [hnew,hn.token,htok]
        exact fun heq => Nat.ne_of_lt hk (distinct.randomToken (distinct.digest heq))
    rcases hn.redeemed with ⟨hsam,-⟩ | ⟨ticket,access,hcon,htic,hres⟩
    · exact hbef pair (hsam ▸ hpai)
    · rw [hcon] at hpai
      rcases mem_cons.1 hpai with rfl | hold
      · exact (hres.2.2.2.2 entry hent).2
      · exact hbef pair hold
  once := by
    rcases hn.redeemed with ⟨hsam,-⟩ | ⟨ticket,access,hcon,htic,hpub,hsec,hses,hfre,-⟩
    · rw [hsam]
      exact h.once
    · rw [hcon]
      refine nodup_cons.2 ⟨fun hmem => ?_,h.once⟩
      obtain ⟨pair,hpai,heq⟩ := mem_map.1 hmem
      exact hfre pair hpai heq
  redeemed := fun pair hpai => by
    rw [hn.drawn]
    have hbef : ∀ pair ∈ m.redeemed, ∃ k < m.drawn+1, pair.1=crypto.randomToken k := by
      intro pair hpai
      obtain ⟨k,hk,htok⟩ := h.redeemed pair hpai
      exact ⟨k,Nat.lt_succ_of_lt hk,htok⟩
    rcases hn.redeemed with ⟨hsam,-⟩ | ⟨ticket,access,hcon,htic,hres⟩
    · exact hbef pair (hsam ▸ hpai)
    · rw [hcon] at hpai
      rcases mem_cons.1 hpai with rfl | hold
      · obtain ⟨k,hk,htok⟩ := h.drawn ticket htic
        exact ⟨k,Nat.lt_succ_of_lt hk,htok⟩
      · exact hbef pair hold
  granted := by
    rw [hn.minted]
    intro session hmem access hses
    rcases hn.redeemed with ⟨hsam,hoth⟩ | ⟨ticket,access',hcon,htic,hpub,hsec,hmad,-⟩
    · rcases mem_cons.1 hmem with rfl | hold
      · exact absurd hses (hoth access)
      · rw [hsam]
        obtain ⟨old,hmin,hres⟩ := h.granted session hold access hses
        exact ⟨old,mem_cons_of_mem _ hmin,hres⟩
    · rw [hcon]
      rcases mem_cons.1 hmem with rfl | hold
      · cases hmad.symm.trans hses
        exact ⟨ticket,mem_cons_of_mem _ htic,mem_cons_self,hpub,hsec⟩
      · obtain ⟨old,hmin,hpai,hres⟩ := h.granted session hold access hses
        exact ⟨old,mem_cons_of_mem _ hmin,mem_cons_of_mem _ hpai,hres⟩
  named := by
    rcases hn.created with ⟨hsam,-⟩ | ⟨hcon,-⟩
    · rw [hsam]
      exact h.named
    · rw [hcon]
      exact nodup_cons.2 ⟨h.id_fresh distinct,h.named⟩
  created := hn.named
  ids := by
    rcases hn.created with ⟨hsam,hids⟩ | ⟨hcon,hids⟩
    · rw [hsam,hids]
      exact h.ids
    · rw [hcon,hids]
      intro id hid
      rcases mem_cons.1 hid with rfl | hold
      · exact ⟨m.ids,Nat.lt_succ_self _,rfl⟩
      · obtain ⟨k,hk,heq⟩ := h.ids id hold
        exact ⟨k,Nat.lt_succ_of_lt hk,heq⟩

end

theorem Opens.mapSet (h : Opens m' hash key secret expiresAt)
    (hpub : m'.publications=Foundation.mapSet id p m.publications)
    (htic : ∀ entry ∈ m'.managementTickets, entry ∈ m.managementTickets)
    (hses : ∀ entry ∈ m'.managementSessions, entry ∈ m.managementSessions) :
    Opens m hash key secret expiresAt ∨
      key=id ∧ match p with
        | .file p => hash=p.tokenHash ∧ secret=.file ∧ expiresAt=some p.expiresAt
        | .port p => hash=p.ownerTokenHash ∧ secret=.owner ∧ expiresAt=none ∨
            ∃ s, p.share=some s ∧ hash=s.tokenHash ∧ secret=.share ∧ expiresAt=some s.expiresAt := by
  have hmem : ∀ entry ∈ m'.publications, entry=(id,p) ∨ entry ∈ m.publications := by
    rw [hpub]
    exact fun entry hent => mem_mapSet hent
  cases h with
  | owner h =>
    rcases hmem _ h with heq | hold
    · cases heq
      exact Or.inr ⟨rfl,Or.inl ⟨rfl,rfl,rfl⟩⟩
    · exact Or.inl (.owner hold)
  | share h hs =>
    rcases hmem _ h with heq | hold
    · cases heq
      exact Or.inr ⟨rfl,Or.inr ⟨_,hs,rfl,rfl,rfl⟩⟩
    · exact Or.inl (.share hold hs)
  | file h =>
    rcases hmem _ h with heq | hold
    · cases heq
      exact Or.inr ⟨rfl,rfl,rfl,rfl⟩
    · exact Or.inl (.file hold)
  | ticket h => exact Or.inl (.ticket (htic _ h))
  | session h => exact Or.inl (.session (hses _ h))

theorem isSome_lookup_mapSet {publications : List (String × Publication)} (h : (publications.lookup key).isSome) :
    ((Foundation.mapSet id p publications).lookup key).isSome := by
  rw [lookup_mapSet]
  split
  · rfl
  · exact h

theorem evict_subset {maximum : ℕ} {grants : List (String × ManagementGrant)} :
    ∀ entry ∈ evict maximum grants, entry ∈ grants := by
  unfold evict
  split
  next =>
    split
    · exact fun entry hent => (mem_mapDelete.1 hent).1
    · exact fun _ hent => hent
  next => exact fun _ hent => hent

section
variable (h : Confined crypto m) (distinct : Distinct crypto)
include h distinct

theorem Confined.publishes {p : Publication} {mint : Mint}
    {timers : List String} (htok : mint.token=crypto.randomToken m.drawn)
    (hid : mint.publication=crypto.randomId m.ids)
    (hp : match p with
      | .file p => p.tokenHash=crypto.digest mint.token ∧ mint.secret=.file ∧ mint.expiresAt=some p.expiresAt
      | .port p => p.ownerTokenHash=crypto.digest mint.token ∧ p.share=none ∧ mint.secret=.owner ∧
          mint.expiresAt=none) :
    Confined crypto { m with
      publications := Foundation.mapSet (crypto.randomId m.ids) p m.publications
      ids := m.ids+1
      created := crypto.randomId m.ids::m.created
      expiryTimers := timers
      drawn := m.drawn+1
      minted := mint::m.minted } :=
  @Confined.minted crypto m _ h distinct mint {
    opens := fun hash key secret expiresAt hope => by
      obtain ⟨token,publication,made,expiry⟩ := mint
      rcases hope.mapSet (m := m) rfl (fun _ h => h) (fun _ h => h) with hold | ⟨rfl,hnew⟩
      · exact Or.inl hold
      · right
        cases p with
        | file p =>
          obtain ⟨hhas,hmad,hexp⟩ := hp
          obtain ⟨rfl,rfl,rfl⟩ := hnew
          cases hid; cases hmad; cases hexp
          exact ⟨hhas,rfl⟩
        | port p =>
          obtain ⟨hhas,hsha,hmad,hexp⟩ := hp
          rcases hnew with ⟨rfl,rfl,rfl⟩ | ⟨s,hs,-⟩
          · cases hid; cases hmad; cases hexp
            exact ⟨hhas,rfl⟩
          · cases hsha.symm.trans hs
    token := htok
    minted := rfl
    drawn := rfl
    revoked := rfl
    keys := nodup_mapSet h.keys
    tickets := fun entry hent => ⟨isSome_lookup_mapSet (h.tickets entry hent),Or.inl hent⟩
    sessions := fun entry hent => isSome_lookup_mapSet (h.sessions entry hent)
    redeemed := by
      refine Or.inl ⟨rfl,fun access hses => ?_⟩
      cases p with
      | file p => cases hp.2.1.symm.trans hses
      | port p => cases hp.2.2.1.symm.trans hses
    created := Or.inr ⟨rfl,rfl⟩
    named := fun entry hent => by
      rcases mem_mapSet hent with rfl | hold
      · exact mem_cons_self
      · exact mem_cons_of_mem _ (h.created entry hold) }

theorem Confined.publishFile (expiresInSeconds now later : ℤ) :
    Confined crypto (m.publishFile crypto expiresInSeconds now later) :=
  (h.prune now).pruneFilePublications.publishes distinct rfl rfl ⟨rfl,rfl,rfl⟩

theorem Confined.share (id : String) (expiresInSeconds : ℤ)
    (access : Except String PreviewAccess) (now later : ℤ) :
    Confined crypto (m.share crypto id expiresInSeconds access now later) := by
  have hpru:=h.prune now
  have hfre:=hpru.revokeShare id
  unfold PreviewManager.share
  dsimp only
  split
  next =>
    split
    next => exact hpru
    next =>
      split
      next => exact hpru
      next =>
        split
        next publication hloo =>
          have hmem:=mem_of_lookup hloo
          refine @Confined.minted crypto _ _ hfre distinct ⟨_,id,.share,some (later+expiresInSeconds*1000)⟩ {
            opens := fun hash key secret expiresAt hope => ?_
            token := rfl
            minted := rfl
            drawn := rfl
            revoked := rfl
            keys := nodup_mapSet hfre.keys
            tickets := fun entry hent => ⟨isSome_lookup_mapSet (hfre.tickets entry hent),Or.inl hent⟩
            sessions := fun entry hent => isSome_lookup_mapSet (hfre.sessions entry hent)
            redeemed := Or.inl ⟨rfl,fun _ hses => nomatch hses⟩
            created := Or.inl ⟨rfl,rfl⟩
            named := fun entry hent => ?_ }
          · rcases hope.mapSet (m := (m.prune now).revokeShare id) rfl (fun _ h => h) (fun _ h => h) with
              hold | ⟨rfl,⟨rfl,rfl,rfl⟩ | ⟨s,hs,rfl,rfl,rfl⟩⟩
            · exact Or.inl hold
            · exact Or.inl (Opens.owner (p := publication) hmem)
            · cases hs
              exact Or.inr ⟨rfl,rfl⟩
          · rcases mem_mapSet hent with rfl | hold
            · exact hfre.created (id,.port publication) hmem
            · exact hfre.created entry hold
        next => exact hfre
  next => exact hpru

theorem Confined.publish (port : ℕ) (legacy : Option ℤ)
    (access : Except String PreviewAccess) (now shareNow shareLater : ℤ) :
    Confined crypto (m.publish crypto port legacy access now shareNow shareLater) := by
  have hpub : Confined crypto _ :=
    @Confined.publishes crypto m h distinct
      (.port ⟨crypto.randomId m.ids,now,port,crypto.digest (crypto.randomToken m.drawn),none⟩)
      ⟨crypto.randomToken m.drawn,crypto.randomId m.ids,.owner,none⟩ m.expiryTimers rfl rfl ⟨rfl,rfl,rfl,rfl⟩
  unfold PreviewManager.publish
  dsimp only
  split
  next =>
    split
    · exact hpub
    · exact hpub.share distinct _ _ _ _ _
  next => exact hpub

theorem Confined.openForManagement (id : String)
    (surface : PreviewSurface) (access : Except String PreviewAccess) (now later : ℤ) :
    Confined crypto (m.openForManagement crypto id surface access now later) := by
  have hpru:=h.prune now
  unfold PreviewManager.openForManagement
  dsimp only
  split
  next => exact hpru
  next => exact hpru
  next publication granted hloo =>
    generalize (if surface=.localSurface then some granted.publicBaseUrl else granted.remoteBaseUrl)=base
    split
    next => exact hpru
    next =>
      have hliv : ((m.prune now).publications.lookup id).isSome := by
        rw [hloo]
        rfl
      refine @Confined.minted crypto _ _ hpru distinct
        ⟨_,id,.ticket surface,some (min (publicationDeadline publication) (later+managementTicketTtlMs))⟩ {
        opens := fun hash key secret expiresAt hope => ?_
        token := rfl
        minted := rfl
        drawn := rfl
        revoked := rfl
        keys := hpru.keys
        tickets := fun entry hent => ?_
        sessions := hpru.sessions
        redeemed := Or.inl ⟨rfl,fun _ hses => nomatch hses⟩
        created := Or.inl ⟨rfl,rfl⟩
        named := hpru.created }
      · cases hope with
        | owner hmem => exact Or.inl (.owner hmem)
        | share hmem hs => exact Or.inl (.share hmem hs)
        | file hmem => exact Or.inl (.file hmem)
        | session hmem => exact Or.inl (.session hmem)
        | ticket hmem =>
          rcases mem_mapSet hmem with heq | hold
          · cases heq
            exact Or.inr ⟨rfl,rfl⟩
          · exact Or.inl (.ticket (evict_subset _ hold))
      · rcases mem_mapSet hent with rfl | hold
        · exact ⟨hliv,Or.inr rfl⟩
        · exact ⟨hpru.tickets entry (evict_subset _ hold),Or.inl (evict_subset _ hold)⟩

theorem Confined.redeemManagementTicket (request : PreviewRequest) {publication : Publication}
    (hloo : m.publications.lookup id=some publication) (later : ℤ) :
    Confined crypto (m.redeemManagementTicket crypto request id publication later).2 := by
  unfold PreviewManager.redeemManagementTicket
  split
  next => exact h
  next token =>
    split
    next => exact h
    next grant hgra =>
      split
      next => exact h
      next hval =>
        have hmem:=mem_of_lookup hgra
        have hpub : grant.publicationId=id := by
          by_contra hne
          exact hval (Or.inr (Or.inl hne))
        subst hpub
        obtain ⟨made,hmad,hdig,hliv⟩ := h.backed _ _ _ _ (.ticket hmem)
        cases distinct.digest hdig
        refine @Confined.minted crypto _ _ h distinct
          ⟨_,grant.publicationId,.session grant.access,some (publicationDeadline publication)⟩ {
          opens := fun hash key secret expiresAt hope => ?_
          token := rfl
          minted := rfl
          drawn := rfl
          revoked := rfl
          keys := h.keys
          tickets := fun entry hent => ?_
          sessions := fun entry hent => ?_
          redeemed := Or.inr ⟨_,grant.access,rfl,hmad,rfl,rfl,rfl,fun pair hpai heq => ?_,fun entry hent => ?_⟩
          created := Or.inl ⟨rfl,rfl⟩
          named := h.created }
        · cases hope with
          | owner hmem => exact Or.inl (.owner hmem)
          | share hmem hs => exact Or.inl (.share hmem hs)
          | file hmem => exact Or.inl (.file hmem)
          | ticket hmem => exact Or.inl (.ticket (mem_mapDelete.1 hmem).1)
          | session hmem =>
            rcases mem_mapSet hmem with heq | hold
            · cases heq
              exact Or.inr ⟨rfl,rfl⟩
            · exact Or.inl (.session (evict_subset _ hold))
        · have hold:=(mem_mapDelete.1 hent).1
          exact ⟨h.tickets entry hold,Or.inl hold⟩
        · rcases mem_mapSet hent with rfl | hold
          · exact h.tickets (_,grant) hmem
          · exact h.sessions entry (evict_subset _ hold)
        · exact h.unredeemed _ hmem pair hpai (congrArg crypto.digest heq)
        · obtain ⟨hold,hkey⟩ := mem_mapDelete.1 hent
          exact ⟨hold,hkey.symm⟩

theorem Confined.handle (id : String) (request : PreviewRequest)
    (now later : ℤ) : Confined crypto (m.handle crypto id request now later).2 := by
  have hpru:=h.prune now
  unfold PreviewManager.handle
  dsimp only
  split
  next => exact hpru
  next publication hloo =>
    have hred:=hpru.redeemManagementTicket distinct request hloo later
    split
    next hres =>
      rw [hres] at hred
      exact hred
    next hres =>
      rw [hres] at hred
      split
      · exact hred
      · exact hred

theorem Confined.step (action : PreviewAction) :
    Confined crypto (m.step crypto action) := by
  cases action with
  | publish => exact h.publish distinct _ _ _ _ _ _
  | publishFile => exact h.publishFile distinct _ _ _
  | share => exact h.share distinct _ _ _ _ _
  | revokeShare id => exact h.revokeShare id
  | openForManagement => exact h.openForManagement distinct _ _ _ _ _
  | revokeForManagement id now => exact (h.prune now).unpublish id
  | unpublish id => exact h.unpublish id
  | clear => exact h.clear
  | list now => exact h.prune now
  | removeStoppedPort id =>
    show Confined crypto (m.removeStoppedPort id)
    unfold PreviewManager.removeStoppedPort
    split
    · exact h.unpublish id
    · exact h
  | expiryTimer id =>
    show Confined crypto (m.expiryTimer id)
    unfold PreviewManager.expiryTimer
    split
    · exact h.unpublish id
    · exact h
  | shareExpiryTimer id =>
    show Confined crypto (m.shareExpiryTimer id)
    unfold PreviewManager.shareExpiryTimer
    split
    · exact h.revokeShare id
    · exact h
  | handle => exact h.handle distinct _ _ _ _
  | handleUpgrade id request now later =>
    show Confined crypto (m.handleUpgrade crypto id request now later).2
    unfold PreviewManager.handleUpgrade
    dsimp only
    split
    · exact h.prune now
    · exact h.prune now

end

theorem confined_create : Confined crypto create where
  keys := nodup_nil
  backed := fun hash id secret expiresAt h => by cases h <;> contradiction
  tickets := fun _ h => nomatch h
  sessions := fun _ h => nomatch h
  tokens := nodup_nil
  drawn := fun _ h => nomatch h
  revoked := fun _ h => nomatch h
  unredeemed := fun _ h => nomatch h
  once := nodup_nil
  redeemed := fun _ h => nomatch h
  granted := fun _ h => nomatch h
  named := nodup_nil
  created := fun _ h => nomatch h
  ids := fun _ h => nomatch h

theorem confined_of_reachable (distinct : Distinct crypto) (h : (previewSystem crypto).Reachable m) :
    Confined crypto m := by
  apply h.invariant
  · intro s hini
    cases hini
    exact confined_create
  · intro s action t hcon hste
    cases hste
    exact hcon.step distinct action

end Steps
end Qubicl.Control.Previews
