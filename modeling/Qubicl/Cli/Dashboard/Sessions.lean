import Mathlib.Data.List.Nodup
import Qubicl.Cli.Dashboard.System

/-!
# Dashboard sessions die when they are revoked
-/

namespace Qubicl.Cli.Dashboard
open Foundation DashboardAuthManager AuthWorld List Option

/-- SHA-256 has no collisions, and random tokens and UUIDs do not come twice. -/
structure CollisionFree (crypto : DashboardCrypto) : Prop where
  tokenHash : Function.Injective crypto.tokenHash
  randomToken : Function.Injective crypto.randomToken
  randomId : Function.Injective crypto.randomId

/-- What it takes for a token to be good for a session: it is the last one that was issued
for it, to an attempt that began after the last change of the authorization and whose
password is that of the verifier in force; the session has not been ended and is within
its limits. -/
structure Honoured (limits : SessionLimits) (crypto : DashboardCrypto) (w : AuthWorld) (token : String) (now : ℤ)
    (session : String) : Prop where
  issued : ∃ issue, w.issued.find? (·.session=session)=some issue ∧ issue.token=token ∧
    w.lastChange ≤ issue.began ∧ w.manager.verifier=some issue.verifier ∧
    passwordMatches crypto issue.password issue.verifier.value=true
  alive : session ∉ w.ended
  absolute : ∃ t, w.opened.lookup session=some t ∧ now<t+limits.absoluteMs
  idle : ∃ t, w.activity.lookup session=some t ∧ now - t<limits.idleMs

/-- Another token has been issued for the session since. -/
def RotatedOut (w : AuthWorld) (token : String) : Prop :=
  ∃ newer issue older, w.issued=newer++issue::older ∧ issue.token=token ∧
    ∃ later ∈ newer, later.session=issue.session

variable {action : AuthAction} {now : ℤ} {record : SessionRecord} {session : DashboardAuthenticatedSession}

section Invariant
variable (limits : SessionLimits) (crypto : DashboardCrypto)

structure Recorded (w : AuthWorld) (hash : String) (record : SessionRecord) : Prop where
  key : record.tokenHash=hash
  issued : ∃ issue, w.issued.find? (·.session=record.id)=some issue ∧ crypto.tokenHash issue.token=hash ∧
    w.lastChange ≤ issue.began ∧ w.manager.verifier=some issue.verifier ∧
    passwordMatches crypto issue.password issue.verifier.value=true
  alive : record.id ∉ w.ended
  opened : ∃ t, w.opened.lookup record.id=some t ∧ record.absoluteExpiresAt=t+limits.absoluteMs
  activity : w.activity.lookup record.id=some record.lastActivityAt
  id : ∃ k<w.ids, record.id=crypto.randomId k

structure Waits (w : AuthWorld) (a : Attempt) : Prop where
  generation : a.generation≤w.manager.authorizationGeneration
  began : a.generation=w.manager.authorizationGeneration → w.lastChange≤a.began
  verifier : ∀ v, w.manager.verifier=some v → v.ref=a.verifier.ref → v=a.verifier
  object : a.verifier.ref<w.objects
  derived : a.derived=true → passwordMatches crypto a.password a.verifier.value=true

structure Authorized (w : AuthWorld) : Prop where
  entries : ∀ entry ∈ w.manager.sessionsByHash, Recorded limits crypto w entry.1 entry.2
  keys : (w.manager.sessionsByHash.map Prod.fst).Nodup
  sessions : (w.manager.sessionsByHash.map fun entry => entry.2.id).Nodup
  size : w.manager.sessionsByHash.length ≤ maxSessions
  attempts : ∀ a ∈ w.attempts, Waits crypto w a
  verifier : ∀ v, w.manager.verifier=some v → v.ref<w.objects
  tokens : (w.issued.map Issue.token).Nodup
  drawn : ∀ issue ∈ w.issued, ∃ k<w.drawn, issue.token=crypto.randomToken k
  ended : ∀ session ∈ w.ended, ∃ k<w.ids, session=crypto.randomId k
  began : w.lastChange≤w.steps

variable {limits crypto} {w w' w'' : AuthWorld}

/-- Sessions and attempts may be gone, and what is ended is gone; the rest is as before. -/
structure Narrowed (w w' : AuthWorld) : Prop where
  sessions : w'.manager.sessionsByHash.Sublist w.manager.sessionsByHash
  verifier : w'.manager.verifier=w.manager.verifier
  generation : w'.manager.authorizationGeneration=w.manager.authorizationGeneration
  attempts : ∀ a ∈ w'.attempts, a ∈ w.attempts
  drawn : w'.drawn=w.drawn
  ids : w'.ids=w.ids
  objects : w'.objects=w.objects
  steps : w.steps≤w'.steps
  lastChange : w'.lastChange=w.lastChange
  issued : w'.issued=w.issued
  opened : w'.opened=w.opened
  activity : w'.activity=w.activity
  ended : ∀ session ∈ w'.ended, session ∈ w.ended ∨ (∃ entry ∈ w.manager.sessionsByHash, entry.2.id=session) ∧
    ∀ entry ∈ w'.manager.sessionsByHash, entry.2.id≠session

theorem Narrowed.refl (w : AuthWorld) : Narrowed w w where
  sessions := List.Sublist.refl _
  verifier := rfl
  generation := rfl
  attempts := fun _ ha => ha
  drawn := rfl
  ids := rfl
  objects := rfl
  steps := Nat.le_refl _
  lastChange := rfl
  issued := rfl
  opened := rfl
  activity := rfl
  ended := fun _ hs => Or.inl hs

theorem Narrowed.trans (h : Narrowed w w') (h' : Narrowed w' w'') : Narrowed w w'' where
  sessions := h'.sessions.trans h.sessions
  verifier := h'.verifier.trans h.verifier
  generation := h'.generation.trans h.generation
  attempts := fun a ha => h.attempts a (h'.attempts a ha)
  drawn := h'.drawn.trans h.drawn
  ids := h'.ids.trans h.ids
  objects := h'.objects.trans h.objects
  steps := Nat.le_trans h.steps h'.steps
  lastChange := h'.lastChange.trans h.lastChange
  issued := h'.issued.trans h.issued
  opened := h'.opened.trans h.opened
  activity := h'.activity.trans h.activity
  ended := fun session hs => by
    rcases h'.ended session hs with hold | ⟨⟨entry,hent,heq⟩,hgon⟩
    · rcases h.ended session hold with hold | ⟨hwas,hgon⟩
      · exact Or.inl hold
      · exact Or.inr ⟨hwas,fun entry hent => hgon entry (h'.sessions.subset hent)⟩
    · exact Or.inr ⟨⟨entry,h.sessions.subset hent,heq⟩,hgon⟩

theorem Authorized.narrowed (h : Authorized limits crypto w) (hn : Narrowed w w') : Authorized limits crypto w' where
  entries := fun entry hent => by
    have hrec:=h.entries entry (hn.sessions.subset hent)
    constructor
    · exact hrec.key
    · rw [hn.issued,hn.lastChange,hn.verifier]
      exact hrec.issued
    · intro hend
      rcases hn.ended _ hend with hold | ⟨_,hgon⟩
      · exact hrec.alive hold
      · exact hgon entry hent rfl
    · rw [hn.opened]
      exact hrec.opened
    · rw [hn.activity]
      exact hrec.activity
    · rw [hn.ids]
      exact hrec.id
  keys := h.keys.sublist (hn.sessions.map _)
  sessions := h.sessions.sublist (hn.sessions.map _)
  size := Nat.le_trans hn.sessions.length_le h.size
  attempts := fun a ha => by
    have hwai:=h.attempts a (hn.attempts a ha)
    constructor
    · rw [hn.generation]
      exact hwai.generation
    · rw [hn.generation,hn.lastChange]
      exact hwai.began
    · rw [hn.verifier]
      exact hwai.verifier
    · rw [hn.objects]
      exact hwai.object
    · exact hwai.derived
  verifier := by
    rw [hn.verifier,hn.objects]
    exact h.verifier
  tokens := by
    rw [hn.issued]
    exact h.tokens
  drawn := by
    rw [hn.issued,hn.drawn]
    exact h.drawn
  ended := fun session hs => by
    rw [hn.ids]
    rcases hn.ended session hs with hold | ⟨⟨entry,hent,heq⟩,_⟩
    · exact h.ended session hold
    · obtain ⟨k,hk,hid⟩ := (h.entries entry hent).id
      exact ⟨k,hk,heq.symm.trans hid⟩
  began := by
    rw [hn.lastChange]
    exact Nat.le_trans h.began hn.steps

variable {m : DashboardAuthManager}

theorem narrowed_manager (hses : m.sessionsByHash.Sublist w.manager.sessionsByHash)
    (hver : m.verifier=w.manager.verifier)
    (hgen : m.authorizationGeneration=w.manager.authorizationGeneration) :
    Narrowed w { w with manager := m } :=
  { Narrowed.refl w with sessions := hses, verifier := hver, generation := hgen
                         ended := fun _ hs => Or.inl hs }

theorem narrowed_prune (now : ℤ) : Narrowed w (w.onManager (prune limits now)) :=
  narrowed_manager filter_sublist rfl rfl

theorem narrowed_recordFailure (peer : String) (now : ℤ) :
    Narrowed w (w.onManager (DashboardAuthManager.recordFailure peer now)) :=
  narrowed_manager (List.Sublist.refl _) rfl rfl

theorem narrowed_clearPeerFailures (peer : String) : Narrowed w (w.onManager (clearPeerFailures peer)) :=
  narrowed_manager (List.Sublist.refl _) rfl rfl

theorem narrowed_drop (a : Attempt) : Narrowed w (w.drop a) :=
  { Narrowed.refl w with attempts := fun _ hb => mem_of_mem_filter hb }

theorem narrowed_steps : Narrowed w { w with steps := w.steps+1 } :=
  { Narrowed.refl w with steps := Nat.le_succ _ }

theorem activeRecord_cases (m : DashboardAuthManager) (hash : String) (now : ℤ) :
    (m.activeRecord limits hash now).2.sessionsByHash.Sublist m.sessionsByHash ∧
    (m.activeRecord limits hash now).2.verifier=m.verifier ∧
    (m.activeRecord limits hash now).2.authorizationGeneration=m.authorizationGeneration ∧
    ∀ record, (m.activeRecord limits hash now).1=some record →
      m.sessionsByHash.lookup hash=some record ∧ expired limits record now=false ∧
        (m.activeRecord limits hash now).2=m := by
  unfold activeRecord
  split
  next => exact ⟨List.Sublist.refl _,rfl,rfl,fun record hrec => by cases hrec⟩
  next record hfou =>
    split
    next => exact ⟨filter_sublist,rfl,rfl,fun record hrec => by cases hrec⟩
    next hliv =>
      refine ⟨List.Sublist.refl _,rfl,rfl,fun record' hrec => ?_⟩
      cases hrec
      exact ⟨hfou,by simpa using hliv,rfl⟩

theorem narrowed_activeRecord (hash : String) (now : ℤ) :
    Narrowed w { w with manager := (w.manager.activeRecord limits hash now).2 } := by
  obtain ⟨hses,hver,hgen,_⟩ := @activeRecord_cases limits w.manager hash now
  exact narrowed_manager hses hver hgen

theorem narrowed_authenticate (token : String) (now : ℤ) :
    Narrowed w (w.onManager fun m => (m.authenticate limits crypto token now).2) := by
  unfold onManager authenticate
  split
  · exact Narrowed.refl w
  · exact narrowed_activeRecord _ now

theorem narrowed_hasValidCsrf (token supplied : String) (now : ℤ) :
    Narrowed w (w.onManager fun m => (m.hasValidCsrf limits crypto token supplied now).2) := by
  unfold onManager hasValidCsrf
  split
  · exact Narrowed.refl w
  · exact narrowed_activeRecord _ now

theorem Authorized.gone (h : Authorized limits crypto w) {hash : String}
    (hmem : (hash,record) ∈ w.manager.sessionsByHash) :
    ∀ entry ∈ mapDelete hash w.manager.sessionsByHash, entry.2.id≠record.id := by
  intro entry hent hid
  obtain ⟨hold,hkey⟩ := mem_mapDelete.1 hent
  have heq:=inj_on_of_nodup_map h.sessions hold hmem hid
  exact hkey (congrArg Prod.fst heq)

theorem Authorized.logout (h : Authorized limits crypto w) (token : String) :
    Authorized limits crypto (w.logout crypto token) := by
  apply h.narrowed
  refine { Narrowed.refl w with sessions := filter_sublist, ended := fun session hs => ?_ }
  rcases mem_append.1 hs with hnow | hold
  · right
    cases hfou : w.manager.sessionsByHash.lookup (crypto.tokenHash token) with
    | none =>
      rw [hfou] at hnow
      exact absurd hnow not_mem_nil
    | some record =>
      rw [hfou] at hnow
      have hid : session=record.id := mem_singleton.1 hnow
      subst hid
      exact ⟨⟨_,mem_of_lookup hfou,rfl⟩,h.gone (mem_of_lookup hfou)⟩
  · exact Or.inl hold

theorem Authorized.revoke (h : Authorized limits crypto w) (sessionId : String) (now : ℤ) :
    Authorized limits crypto (w.revoke limits sessionId now) := by
  have hpru:=@narrowed_prune limits w now
  have hprd:=h.narrowed hpru
  unfold AuthWorld.revoke DashboardAuthManager.revoke
  dsimp only
  cases hfou : (w.manager.prune limits now).sessionsByHash.find? (·.2.id=sessionId) with
  | none => exact hprd
  | some entry =>
    have hmem:=mem_of_find?_eq_some hfou
    have hid : entry.2.id=sessionId := by simpa using find?_some hfou
    apply hprd.narrowed
    refine { Narrowed.refl (w.onManager (prune limits now)) with
      sessions := filter_sublist, ended := fun session hs => ?_ }
    rcases mem_cons.1 hs with heq | hold
    · subst heq
      subst hid
      exact Or.inr ⟨⟨_,hmem,rfl⟩,hprd.gone hmem⟩
    · exact Or.inl hold

variable {a : Attempt}

theorem Waits.narrowed (h : Waits crypto w a) (hn : Narrowed w w') : Waits crypto w' a where
  generation := by
    rw [hn.generation]
    exact h.generation
  began := by
    rw [hn.generation,hn.lastChange]
    exact h.began
  verifier := by
    rw [hn.verifier]
    exact h.verifier
  object := by
    rw [hn.objects]
    exact h.object
  derived := h.derived

section
variable (h : Authorized limits crypto w)
include h

theorem Authorized.attempt (session : Option (ℕ × String)) (password : Option String)
    (peer : String) (now : ℤ) : Authorized limits crypto (w.attempt limits session password peer now) := by
  have hpru:=h.narrowed (@narrowed_prune limits w now)
  unfold AuthWorld.attempt
  dsimp only
  split
  next => exact hpru
  next => exact hpru
  next verifier _ hver =>
    split
    next => exact hpru.narrowed (narrowed_recordFailure peer now)
    next password =>
      split
      next => exact hpru.narrowed (narrowed_recordFailure peer now)
      next =>
        refine { hpru with attempts := fun a ha => ?_, entries := fun entry hent => ?_ }
        · exact ⟨(hpru.entries entry hent).key,(hpru.entries entry hent).issued,
            (hpru.entries entry hent).alive,(hpru.entries entry hent).opened,
            (hpru.entries entry hent).activity,(hpru.entries entry hent).id⟩
        · rcases mem_append.1 ha with hold | hnew
          · have hwai:=hpru.attempts a hold
            exact ⟨hwai.generation,hwai.began,hwai.verifier,hwai.object,hwai.derived⟩
          · rw [mem_singleton.1 hnew]
            constructor
            · exact Nat.le_refl _
            · exact fun _ => hpru.began
            · intro v hv _
              exact Option.some.inj (hv.symm.trans hver)
            · exact hpru.verifier verifier hver
            · intro hder
              cases hder

theorem Authorized.derive (ha : a ∈ w.attempts) (now : ℤ) :
    Authorized limits crypto (w.derive crypto a now) := by
  unfold AuthWorld.derive
  split
  next hmat =>
    refine { h with attempts := fun b hb => ?_, entries := fun entry hent => ?_ }
    · have hrec:=h.entries entry hent
      exact ⟨hrec.key,hrec.issued,hrec.alive,hrec.opened,hrec.activity,hrec.id⟩
    · obtain ⟨b',hb',rfl⟩ := mem_map.1 hb
      have hwai:=h.attempts b' hb'
      split
      next heq =>
        subst heq
        exact ⟨hwai.generation,hwai.began,hwai.verifier,hwai.object,fun _ => hmat⟩
      next => exact ⟨hwai.generation,hwai.began,hwai.verifier,hwai.object,hwai.derived⟩
  next => exact h.narrowed ((narrowed_drop a).trans (narrowed_recordFailure a.peer now))

theorem Authorized.fresh (hfre : CollisionFree crypto) {entry : String × SessionRecord}
    (hent : entry ∈ w.manager.sessionsByHash) : entry.1≠crypto.tokenHash (crypto.randomToken w.drawn) := by
  obtain ⟨issue,hiss,hhas,_⟩ := (h.entries entry hent).issued
  obtain ⟨k,hk,htok⟩ := h.drawn issue (mem_of_find?_eq_some hiss)
  intro heq
  rw [← hhas,htok] at heq
  have hkd:=hfre.randomToken (hfre.tokenHash heq)
  omega

/-- A token is issued for a session that the table does not have, or does not have any more:
`opened`, `ids` and `objects` are as they are for a new session or as they were. -/
theorem Authorized.issue (hfre : CollisionFree crypto)
    (ha : Waits crypto w a) (hder : a.derived=true) (hunc : w.unchanged a=true)
    {rest : List (String × SessionRecord)} {r : SessionRecord} {opened : List (String × ℤ)} {ids objects : ℕ}
    (hres : rest.Sublist w.manager.sessionsByHash) (hoth : ∀ entry ∈ rest, entry.2.id≠r.id)
    (hlen : rest.length < maxSessions) (hkey : r.tokenHash=crypto.tokenHash (crypto.randomToken w.drawn))
    (hali : r.id ∉ w.ended) (hids : w.ids ≤ ids) (hid : ∃ k < ids, r.id=crypto.randomId k)
    (hobj : w.objects≤objects)
    (hope : ∃ t, opened.lookup r.id=some t ∧ r.absoluteExpiresAt=t+limits.absoluteMs)
    (hkep : ∀ id, id≠r.id → opened.lookup id=w.opened.lookup id) :
    Authorized limits crypto
      { w with
        manager := { w.manager with sessionsByHash := mapSet r.tokenHash r rest }
        drawn := w.drawn+2
        ids := ids
        objects := objects
        issued := ⟨crypto.randomToken w.drawn,r.id,a.password,a.verifier,a.began⟩::w.issued
        opened := opened
        activity := (r.id,r.lastActivityAt)::w.activity } := by
  obtain ⟨hgen,href⟩ := Bool.and_eq_true_iff.1 hunc
  have hgen : a.generation=w.manager.authorizationGeneration := of_decide_eq_true hgen
  obtain ⟨v,hv,hvre⟩ := map_eq_some_iff.1 (of_decide_eq_true href)
  have hver : w.manager.verifier=some a.verifier := by rw [hv,ha.verifier v hv hvre]
  have hset : mapSet r.tokenHash r rest=rest++[(r.tokenHash,r)] := by
    apply mapSet_of_fresh
    intro entry hent
    rw [hkey]
    exact h.fresh hfre (hres.subset hent)
  constructor
  case entries =>
    intro entry hent
    rcases mem_append.1 (hset ▸ hent) with hold | hnew
    · have hrec:=h.entries entry (hres.subset hold)
      have hne:=hoth entry hold
      obtain ⟨k,hk,hentryId⟩ := hrec.id
      constructor
      · exact hrec.key
      · show ∃ issue, List.find? _ (_::w.issued)=some issue ∧ _
        rw [find?_cons_of_neg (by simpa using fun heq => hne heq.symm)]
        exact hrec.issued
      · exact hrec.alive
      · show ∃ t, opened.lookup entry.2.id=some t ∧ _
        rw [hkep _ hne]
        exact hrec.opened
      · show List.lookup _ (_::w.activity)=_
        rw [lookup_cons,beq_eq_false_iff_ne.2 hne]
        exact hrec.activity
      · exact ⟨k,Nat.lt_of_lt_of_le hk hids,hentryId⟩
    · rw [mem_singleton.1 hnew]
      constructor
      · rfl
      · refine ⟨_,find?_cons_of_pos (by simp),hkey.symm,ha.began hgen,hver,ha.derived hder⟩
      · exact hali
      · exact hope
      · simp
      · exact hid
  case keys => exact nodup_mapSet (h.keys.sublist (hres.map _))
  case sessions =>
    show ((mapSet r.tokenHash r rest).map _).Nodup
    rw [hset,map_append]
    apply List.Nodup.append (h.sessions.sublist (hres.map _)) (by simp)
    intro id hrestId hnew
    obtain ⟨entry,hent,rfl⟩ := mem_map.1 hrestId
    exact hoth entry hent (mem_singleton.1 hnew)
  case size =>
    show (mapSet r.tokenHash r rest).length≤_
    rw [hset,length_append]
    exact hlen
  case attempts =>
    intro b hb
    have hwai:=h.attempts b hb
    exact ⟨hwai.generation,hwai.began,hwai.verifier,Nat.lt_of_lt_of_le hwai.object hobj,hwai.derived⟩
  case verifier => exact fun u hu => Nat.lt_of_lt_of_le (h.verifier u hu) hobj
  case tokens =>
    apply nodup_cons.2 ⟨?_,h.tokens⟩
    intro hmem
    obtain ⟨issue,hiss,htok⟩ := mem_map.1 hmem
    obtain ⟨k,hk,hdra⟩ := h.drawn issue hiss
    have hkd : k=w.drawn := hfre.randomToken (hdra.symm.trans htok)
    omega
  case drawn =>
    intro issue hiss
    rcases mem_cons.1 hiss with rfl | hold
    · exact ⟨w.drawn,by show w.drawn<w.drawn+2; omega,rfl⟩
    · obtain ⟨k,hk,hdra⟩ := h.drawn issue hold
      exact ⟨k,by show k<w.drawn+2; omega,hdra⟩
  case ended =>
    intro session hs
    obtain ⟨k,hk,hses⟩ := h.ended session hs
    exact ⟨k,Nat.lt_of_lt_of_le hk hids,hses⟩
  case began => exact h.began

theorem Authorized.resumeLogin (hfre : CollisionFree crypto)
    (ha : Waits crypto w a) (hder : a.derived=true) : Authorized limits crypto (w.resumeLogin limits crypto a) := by
  unfold AuthWorld.resumeLogin
  split
  next => exact h
  next hunc =>
    have hunc : w.unchanged a=true := by simpa using hunc
    have hnar:=(@narrowed_clearPeerFailures w a.peer).trans (@narrowed_prune limits _ a.now)
    have hpru:=h.narrowed hnar
    dsimp only
    split
    next => exact hpru
    next hroo =>
      have hnew : ∀ k<w.ids, crypto.randomId w.ids≠crypto.randomId k := by
        intro k hk heq
        have hkid:=hfre.randomId heq
        omega
      apply hpru.issue (r := ⟨w.objects,crypto.randomId w.ids,crypto.tokenHash (crypto.randomToken w.drawn),
        crypto.randomToken (w.drawn+1),a.now,a.now,a.now+limits.absoluteMs,none⟩) hfre (ha.narrowed hnar)
        hder hunc (List.Sublist.refl _)
      · intro entry hent heq
        obtain ⟨k,hk,hid⟩ := (hpru.entries entry hent).id
        exact hnew k hk (heq.symm.trans hid)
      · omega
      · rfl
      · intro hend
        obtain ⟨k,hk,hid⟩ := hpru.ended _ hend
        exact hnew k hk hid
      · exact Nat.le_succ _
      · exact ⟨w.ids,Nat.lt_succ_self _,rfl⟩
      · exact Nat.le_succ _
      · refine ⟨a.now,?_,rfl⟩
        show List.lookup (crypto.randomId w.ids) ((crypto.randomId w.ids,a.now)::w.opened)=some a.now
        simp
      · intro id hid
        have hne : id≠crypto.randomId w.ids := hid
        show List.lookup id ((crypto.randomId w.ids,a.now)::w.opened)=List.lookup id w.opened
        rw [lookup_cons,beq_eq_false_iff_ne.2 hne]

theorem Authorized.resumeReauthenticate (hfre : CollisionFree crypto)
    (ha : Waits crypto w a) (hder : a.derived=true) (ref : ℕ) (originalHash : String) :
    Authorized limits crypto (w.resumeReauthenticate limits crypto a ref originalHash) := by
  unfold AuthWorld.resumeReauthenticate
  split
  next => exact h
  next hunc =>
    have hunc : w.unchanged a=true := by simpa using hunc
    split
    next => exact h
    next record hfou =>
      split
      next => exact h
      next =>
        have hrec:=h.entries _ (mem_of_lookup hfou)
        have hgon:=h.gone (mem_of_lookup hfou)
        have hnar:=@narrowed_clearPeerFailures w a.peer
        apply (h.narrowed hnar).issue (r := { record with
          tokenHash := crypto.tokenHash (crypto.randomToken w.drawn)
          csrfToken := crypto.randomToken (w.drawn+1)
          lastActivityAt := a.now
          reauthenticatedUntil := some (min (a.now+limits.reauthenticationMs) record.absoluteExpiresAt) }) hfre
          (ha.narrowed hnar) hder hunc filter_sublist
        · exact hgon
        · exact Nat.lt_of_lt_of_le (length_mapDelete_lt hfou) h.size
        · rfl
        · exact hrec.alive
        · exact Nat.le_refl _
        · exact hrec.id
        · exact Nat.le_refl _
        · exact hrec.opened
        · exact fun _ _ => rfl

theorem Authorized.resume (hfre : CollisionFree crypto)
    (ha : a ∈ w.attempts) (hder : a.derived=true) : Authorized limits crypto (w.resume limits crypto a) := by
  unfold AuthWorld.resume
  split
  next => exact (h.resumeLogin hfre (h.attempts a ha) hder).narrowed (narrowed_drop a)
  next ref originalHash _ =>
    exact (h.resumeReauthenticate hfre (h.attempts a ha) hder ref originalHash).narrowed (narrowed_drop a)

theorem Authorized.recordActivity (token : String) (now again : ℤ) :
    Authorized limits crypto (w.recordActivity limits crypto token now again) := by
  obtain ⟨_,_,_,hfou⟩ := @activeRecord_cases limits w.manager (crypto.tokenHash token) now
  unfold AuthWorld.recordActivity DashboardAuthManager.recordActivity
  cases hact : w.manager.activeRecord limits (crypto.tokenHash token) now with
  | mk found m =>
    cases found with
    | none =>
      have hnar:=@narrowed_activeRecord limits w (crypto.tokenHash token) now
      rw [hact] at hnar
      exact h.narrowed hnar
    | some record =>
      obtain ⟨hloo,_,hsam⟩ := hfou record (by rw [hact])
      rw [hact] at hsam
      have hm : m=w.manager := hsam
      subst hm
      have hrec:=h.entries _ (mem_of_lookup hloo)
      dsimp only
      refine { h with entries := ?_, keys := nodup_mapSet h.keys, sessions := ?_, size := ?_, attempts := ?_ }
      · intro entry hent
        rcases mem_mapSet_of_nodup h.keys hent with rfl | ⟨hold,hkey⟩
        · exact ⟨hrec.key,hrec.issued,hrec.alive,hrec.opened,by simp [toAuthenticated],hrec.id⟩
        · have hne : entry.2.id≠record.id :=
            h.gone (mem_of_lookup hloo) entry (mem_mapDelete.2 ⟨hold,hkey⟩)
          have hred:=h.entries entry hold
          refine ⟨hred.key,hred.issued,hred.alive,hred.opened,?_,hred.id⟩
          show List.lookup entry.2.id ((record.id,again)::w.activity)=_
          rw [lookup_cons,beq_eq_false_iff_ne.2 hne]
          exact hred.activity
      · have hids : (mapSet (crypto.tokenHash token) { record with lastActivityAt := again }
            w.manager.sessionsByHash).map (fun entry => entry.2.id) =
              w.manager.sessionsByHash.map (fun entry => entry.2.id) := map_mapSet hloo rfl
        show (List.map _ (mapSet _ _ w.manager.sessionsByHash)).Nodup
        rw [hids]
        exact h.sessions
      · show (mapSet _ _ w.manager.sessionsByHash).length≤_
        rw [length_mapSet,hloo]
        exact h.size
      · intro a ha
        have hwai:=h.attempts a ha
        exact ⟨hwai.generation,hwai.began,hwai.verifier,hwai.object,hwai.derived⟩

theorem Authorized.change {verifier : Option HeldVerifier} {objects : ℕ}
    (hobj : w.objects≤objects) (hver : ∀ v, verifier=some v → v.ref<objects)
    (hatt : ∀ v, verifier=some v → ∀ a ∈ w.attempts, v.ref=a.verifier.ref → v=a.verifier) :
    Authorized limits crypto
      { w with
        manager := w.manager.setVerifier verifier
        objects := objects
        steps := w.steps+1
        lastChange := w.steps+1 } where
  entries := fun entry hent => absurd hent not_mem_nil
  keys := nodup_nil
  sessions := nodup_nil
  size := Nat.zero_le _
  attempts := fun a ha => by
    have hwai:=h.attempts a ha
    constructor
    · exact Nat.le_succ_of_le hwai.generation
    · intro heq
      have hlat : a.generation=w.manager.authorizationGeneration+1 := heq
      have hear:=hwai.generation
      omega
    · exact fun v hv href => hatt v hv a ha href
    · exact Nat.lt_of_lt_of_le hwai.object hobj
    · exact hwai.derived
  verifier := hver
  tokens := h.tokens
  drawn := h.drawn
  ended := h.ended
  began := Nat.le_refl _

theorem Authorized.setVerifier (verifier : DashboardPasswordVerifier) :
    Authorized limits crypto { w.setVerifier verifier with steps := w.steps+1 } := by
  apply h.change (Nat.le_succ _)
  · intro v hv
    cases hv
    exact Nat.lt_succ_self _
  · intro v hv a ha href
    cases hv
    have hobj:=(h.attempts a ha).object
    have href : w.objects=a.verifier.ref := href
    omega

theorem Authorized.revokeAll :
    Authorized limits crypto { w.revokeAll with steps := w.steps+1 } :=
  h.change (Nat.le_refl _) h.verifier fun v hv a ha => (h.attempts a ha).verifier v hv

theorem Authorized.removePasswordVerifier :
    Authorized limits crypto { w.removePasswordVerifier with steps := w.steps+1 } := by
  apply h.change (Nat.le_refl _)
  · intro v hv
    cases hv
  · intro v hv
    cases hv

end

theorem authorized_create (verifier : Option DashboardPasswordVerifier) :
    Authorized limits crypto (create verifier) where
  entries := fun entry hent => absurd hent not_mem_nil
  keys := nodup_nil
  sessions := nodup_nil
  size := Nat.zero_le _
  attempts := fun a ha => absurd ha not_mem_nil
  verifier := fun v hv => by
    obtain ⟨value,_,rfl⟩ := map_eq_some_iff.1 hv
    exact Nat.zero_lt_one
  tokens := nodup_nil
  drawn := fun issue hiss => absurd hiss not_mem_nil
  ended := fun session hs => absurd hs not_mem_nil
  began := Nat.le_refl _

theorem waiting_mem {number : ℕ} {derived : Bool} (h : w.waiting number derived=some a) :
    a ∈ w.attempts ∧ a.derived=derived := by
  have hp:=find?_some h
  rw [Bool.and_eq_true] at hp
  exact ⟨mem_of_find?_eq_some h,by simpa using hp.2⟩

theorem Authorized.step (h : Authorized limits crypto w) (hfre : CollisionFree crypto)
    (hste : w.step limits crypto action=some w') : Authorized limits crypto w' := by
  obtain ⟨u,hrun,rfl⟩ := map_eq_some_iff.1 hste
  cases action with
  | beginLogin password peer now =>
    cases hrun
    exact (h.attempt none password peer now).narrowed narrowed_steps
  | beginReauthenticate token password peer now again =>
    cases hrun
    have hnar:=@narrowed_activeRecord limits w (crypto.tokenHash token) now
    unfold beginReauthenticate
    split
    next m hact =>
      rw [hact] at hnar
      exact (h.narrowed hnar).narrowed narrowed_steps
    next record m hact =>
      rw [hact] at hnar
      exact ((h.narrowed hnar).attempt _ password peer again).narrowed narrowed_steps
  | derive number now =>
    obtain ⟨a,ha,rfl⟩ := map_eq_some_iff.1 hrun
    exact (h.derive (waiting_mem ha).1 now).narrowed narrowed_steps
  | fail number =>
    obtain ⟨a,ha,rfl⟩ := map_eq_some_iff.1 hrun
    exact h.narrowed ((narrowed_drop a).trans narrowed_steps)
  | resume number =>
    obtain ⟨a,ha,rfl⟩ := map_eq_some_iff.1 hrun
    exact (h.resume hfre (waiting_mem ha).1 (waiting_mem ha).2).narrowed narrowed_steps
  | authenticate token now =>
    cases hrun
    exact h.narrowed ((narrowed_authenticate token now).trans narrowed_steps)
  | hasValidCsrf token supplied now =>
    cases hrun
    exact h.narrowed ((narrowed_hasValidCsrf token supplied now).trans narrowed_steps)
  | recordActivity token now again =>
    cases hrun
    exact (h.recordActivity token now again).narrowed narrowed_steps
  | logout token =>
    cases hrun
    exact (h.logout token).narrowed narrowed_steps
  | revoke sessionId now =>
    cases hrun
    exact (h.revoke sessionId now).narrowed narrowed_steps
  | revokeAll =>
    cases hrun
    exact h.revokeAll
  | replacePasswordVerifier verifier =>
    cases hrun
    unfold replacePasswordVerifier
    split
    next => exact h.narrowed narrowed_steps
    next => exact h.setVerifier verifier
  | refreshPasswordVerifier verifier =>
    cases hrun
    unfold refreshPasswordVerifier
    split
    next => exact h.narrowed narrowed_steps
    next =>
      split
      next => exact h.narrowed narrowed_steps
      next => exact h.setVerifier verifier
  | removePasswordVerifier =>
    cases hrun
    exact h.removePasswordVerifier
  | list now =>
    cases hrun
    exact h.narrowed ((narrowed_prune now).trans narrowed_steps)

theorem reachable_authorized (hfre : CollisionFree crypto) (h : (authSystem limits crypto).Reachable w) :
    Authorized limits crypto w := by
  apply TransitionSystem.Reachable.invariant (P := Authorized limits crypto) _ _ h
  · rintro _ ⟨verifier,_,rfl⟩
    exact authorized_create verifier
  · exact fun _ _ _ hs hste => hs.step hfre hste

variable {token : String}

theorem Authorized.honoured (h : Authorized limits crypto w) (hfre : CollisionFree crypto)
    (hfou : (w.manager.activeRecord limits (crypto.tokenHash token) now).1=some record) :
    Honoured limits crypto w token now record.id := by
  obtain ⟨_,_,_,hcas⟩ := @activeRecord_cases limits w.manager (crypto.tokenHash token) now
  obtain ⟨hloo,hliv,_⟩ := hcas record hfou
  have hrec:=h.entries _ (mem_of_lookup hloo)
  have hlim : now<record.absoluteExpiresAt ∧ now - record.lastActivityAt<limits.idleMs := by
    simpa [expired] using hliv
  obtain ⟨issue,hiss,hhas,haut⟩ := hrec.issued
  obtain ⟨t,ht,habs⟩ := hrec.opened
  constructor
  · exact ⟨issue,hiss,hfre.tokenHash hhas,haut⟩
  · exact hrec.alive
  · exact ⟨t,ht,by rw [← habs]; exact hlim.1⟩
  · exact ⟨_,hrec.activity,hlim.2⟩

theorem authenticate_found (h : (m.authenticate limits crypto token now).1=some session) :
    ∃ record, (m.activeRecord limits (crypto.tokenHash token) now).1=some record ∧ session.actorId=record.id := by
  unfold authenticate at h
  split at h
  next => cases h
  next =>
    obtain ⟨record,hrec,rfl⟩ := map_eq_some_iff.1 h
    exact ⟨record,hrec,rfl⟩

theorem recordActivity_found {again : ℤ} (h : (m.recordActivity limits crypto token now again).1=some session) :
    ∃ record, (m.activeRecord limits (crypto.tokenHash token) now).1=some record ∧ session.actorId=record.id := by
  unfold DashboardAuthManager.recordActivity at h
  split at h
  next => cases h
  next record m' hact =>
    cases h
    exact ⟨record,by rw [hact],rfl⟩

theorem hasValidCsrf_found {supplied : String} (h : (m.hasValidCsrf limits crypto token supplied now).1=true) :
    ∃ record, (m.activeRecord limits (crypto.tokenHash token) now).1=some record := by
  unfold hasValidCsrf at h
  split at h
  next => cases h
  next =>
    cases hfou : (m.activeRecord limits (crypto.tokenHash token) now).1 with
    | none =>
      dsimp only at h
      rw [hfou] at h
      cases h
    | some record => exact ⟨record,rfl⟩

theorem Authorized.not_rotatedOut (h : Authorized limits crypto w) {session : String}
    (hhon : Honoured limits crypto w token now session) : ¬ RotatedOut w token := by
  rintro ⟨newer,issue,older,hiss,htok,later,hlat,hses⟩
  obtain ⟨latest,hfin,hlae,_⟩ := hhon.issued
  have htos:=h.tokens
  have hmem : issue ∈ w.issued := by rw [hiss]; simp
  have hsam : latest=issue :=
    inj_on_of_nodup_map htos (mem_of_find?_eq_some hfin) hmem (hlae.trans htok.symm)
  subst hsam
  have hof : later.session=session := by
    have hfou:=find?_some hfin
    rw [hses]
    simpa using hfou
  -- the search meets the later issue first
  rw [hiss] at hfin htos
  rw [find?_append] at hfin
  cases hfir : newer.find? (·.session=session) with
  | none =>
    have hnon:=find?_eq_none.1 hfir later hlat
    simp [hof] at hnon
  | some first =>
    rw [hfir] at hfin
    have heq : first=latest := Option.some.inj hfin
    subst heq
    rw [map_append,map_cons] at htos
    exact (nodup_append.1 htos).2.2 _ (mem_map_of_mem (mem_of_find?_eq_some hfir)) _
      mem_cons_self rfl

theorem issued_attempt (session : Option (ℕ × String)) (password : Option String) (peer : String) (now : ℤ) :
    (w.attempt limits session password peer now).issued=w.issued := by
  unfold AuthWorld.attempt
  dsimp only
  split
  · rfl
  · rfl
  · split
    · rfl
    · split <;> rfl

theorem issued_resume (a : Attempt) : ∃ newer, (w.resume limits crypto a).issued=newer++w.issued := by
  unfold AuthWorld.resume
  split
  next =>
    show ∃ newer, (w.resumeLogin limits crypto a).issued=newer++w.issued
    unfold AuthWorld.resumeLogin
    split
    · exact ⟨[],rfl⟩
    · dsimp only
      split
      · exact ⟨[],rfl⟩
      · exact ⟨[_],rfl⟩
  next ref originalHash _ =>
    show ∃ newer, (w.resumeReauthenticate limits crypto a ref originalHash).issued=newer++w.issued
    unfold AuthWorld.resumeReauthenticate
    split
    · exact ⟨[],rfl⟩
    · split
      · exact ⟨[],rfl⟩
      · split
        · exact ⟨[],rfl⟩
        · exact ⟨[_],rfl⟩

theorem issued_run (h : w.run limits crypto action=some w') : ∃ newer, w'.issued=newer++w.issued := by
  cases action with
  | resume number =>
    obtain ⟨a,_,rfl⟩ := map_eq_some_iff.1 h
    exact issued_resume a
  | beginLogin password peer now =>
    cases h
    exact ⟨[],issued_attempt none password peer now⟩
  | beginReauthenticate token password peer now again =>
    cases h
    refine ⟨[],?_⟩
    unfold beginReauthenticate
    split
    · rfl
    · exact issued_attempt _ password peer again
  | derive number now =>
    obtain ⟨a,_,rfl⟩ := map_eq_some_iff.1 h
    refine ⟨[],?_⟩
    unfold AuthWorld.derive
    split <;> rfl
  | fail number =>
    obtain ⟨a,_,rfl⟩ := map_eq_some_iff.1 h
    exact ⟨[],rfl⟩
  | recordActivity token now again =>
    cases h
    refine ⟨[],?_⟩
    unfold AuthWorld.recordActivity
    split <;> rfl
  | revoke sessionId now =>
    cases h
    refine ⟨[],?_⟩
    unfold AuthWorld.revoke
    split <;> rfl
  | replacePasswordVerifier verifier =>
    cases h
    refine ⟨[],?_⟩
    unfold replacePasswordVerifier
    split <;> rfl
  | refreshPasswordVerifier verifier =>
    cases h
    refine ⟨[],?_⟩
    unfold refreshPasswordVerifier
    split
    · rfl
    · split <;> rfl
  | authenticate token now => cases h; exact ⟨[],rfl⟩
  | hasValidCsrf token supplied now => cases h; exact ⟨[],rfl⟩
  | logout token => cases h; exact ⟨[],rfl⟩
  | revokeAll => cases h; exact ⟨[],rfl⟩
  | removePasswordVerifier => cases h; exact ⟨[],rfl⟩
  | list now => cases h; exact ⟨[],rfl⟩

theorem RotatedOut.step (h : RotatedOut w token) (hste : w.step limits crypto action=some w') :
    RotatedOut w' token := by
  obtain ⟨u,hrun,rfl⟩ := map_eq_some_iff.1 hste
  obtain ⟨newer,issue,older,hiss,htok,later,hlat,hses⟩ := h
  obtain ⟨newest,hu⟩ := issued_run hrun
  refine ⟨newest++newer,issue,older,?_,htok,later,mem_append_right _ hlat,hses⟩
  show u.issued=_
  rw [hu,hiss,append_assoc]

/-- In every run: a token that is accepted is the last one of its session, issued to an
attempt that began after the authorization last changed and that the verifier in force has
verified, for a session that was not ended and is within its limits; a token that was
rotated out at some time is not accepted at any later one; and there are no more than 128
sessions. -/
theorem dashboard_sessions_die (hfree : CollisionFree crypto) {actions : List AuthAction}
    (h : (authSystem limits crypto).Reachable w) (hrun : (authSystem limits crypto).Run w actions w') (token : String) :
    (∀ now session, (w'.manager.authenticate limits crypto token now).1=some session →
      Honoured limits crypto w' token now session.actorId) ∧
    (∀ now again session, (w'.manager.recordActivity limits crypto token now again).1=some session →
      Honoured limits crypto w' token now session.actorId) ∧
    (∀ supplied now, (w'.manager.hasValidCsrf limits crypto token supplied now).1=true →
      ∃ session, Honoured limits crypto w' token now session) ∧
    (RotatedOut w token →
      (∀ now, (w'.manager.authenticate limits crypto token now).1=none) ∧
      (∀ now again, (w'.manager.recordActivity limits crypto token now again).1=none) ∧
      ∀ supplied now, (w'.manager.hasValidCsrf limits crypto token supplied now).1=false) ∧
    w'.manager.sessionsByHash.length ≤ maxSessions := by
  have haut:=reachable_authorized hfree (h.run hrun)
  have haue : ∀ now session, (w'.manager.authenticate limits crypto token now).1=some session →
      Honoured limits crypto w' token now session.actorId := by
    intro now session hsom
    obtain ⟨record,hfou,hid⟩ := authenticate_found hsom
    rw [hid]
    exact haut.honoured hfree hfou
  have hact : ∀ now again session, (w'.manager.recordActivity limits crypto token now again).1=some session →
      Honoured limits crypto w' token now session.actorId := by
    intro now again session hsom
    obtain ⟨record,hfou,hid⟩ := recordActivity_found hsom
    rw [hid]
    exact haut.honoured hfree hfou
  have hcsr : ∀ supplied now, (w'.manager.hasValidCsrf limits crypto token supplied now).1=true →
      ∃ session, Honoured limits crypto w' token now session := by
    intro supplied now htru
    obtain ⟨record,hfou⟩ := hasValidCsrf_found htru
    exact ⟨record.id,haut.honoured hfree hfou⟩
  refine ⟨haue,hact,hcsr,fun hrot => ?_,haut.size⟩
  have hlat : RotatedOut w' token :=
    hrun.preserves (P := fun u => RotatedOut u token) (fun _ _ _ hu hste => hu.step hste) hrot
  refine ⟨fun now => ?_,fun now again => ?_,fun supplied now => ?_⟩
  · cases hsom : (w'.manager.authenticate limits crypto token now).1 with
    | none => rfl
    | some session => exact absurd hlat (haut.not_rotatedOut (haue now session hsom))
  · cases hsom : (w'.manager.recordActivity limits crypto token now again).1 with
    | none => rfl
    | some session => exact absurd hlat (haut.not_rotatedOut (hact now again session hsom))
  · cases htru : (w'.manager.hasValidCsrf limits crypto token supplied now).1 with
    | false => rfl
    | true =>
      obtain ⟨session,hhon⟩ := hcsr supplied now htru
      exact absurd hlat (haut.not_rotatedOut hhon)

end Invariant

def letters (n : ℕ) : String := String.ofList (List.replicate (n+1) 'a')

theorem letters_injective : Function.Injective letters := by
  intro n m h
  have hlen:=congrArg String.length h
  simpa [letters] using hlen

def exampleCrypto : DashboardCrypto where
  scrypt password _ := if password = "keys to the dashboard" then List.replicate 32 0 else List.replicate 32 1
  tokenHash token := "sha256:" ++ token
  randomToken := letters
  randomId := letters

theorem exampleCrypto_collisionFree : CollisionFree exampleCrypto where
  tokenHash := fun token token' h => by
    have hlis:=congrArg String.toList h
    simp only [exampleCrypto,String.toList_append,append_cancel_left_eq] at hlis
    exact String.toList_injective hlis
  randomToken := letters_injective
  randomId := letters_injective

def exampleLimits : SessionLimits := ⟨1800000,43200000,300000,by decide⟩

def exampleVerifier : DashboardPasswordVerifier :=
  ⟨"scrypt",131072,8,1,32,"AAAAAAAAAAAAAAAAAAAAAA","AAAAAAAAAAAAAAAAAAAAAAAAAAAAAAAAAAAAAAAAAAA"⟩

def exampleActions : List AuthAction :=
  [.beginLogin (some "keys to the dashboard") "peer" 1000,.derive 0 2000,.resume 0,
    .beginReauthenticate "a" (some "keys to the dashboard") "peer" 3000 3000,.derive 3 4000,.resume 3]

theorem dashboard_sessions_die_example : ∃ w session,
    (authSystem exampleLimits exampleCrypto).Reachable w ∧
    (w.manager.authenticate exampleLimits exampleCrypto (letters 2) 5000).1=some session ∧
    Honoured exampleLimits exampleCrypto w (letters 2) 5000 session.actorId := by
  have hexe : ((authSystem exampleLimits exampleCrypto).exec (create (some exampleVerifier)) exampleActions).map
      (fun w => (w.manager.authenticate exampleLimits exampleCrypto (letters 2) 5000).1.isSome)=some true := by
    decide
  obtain ⟨w,hw,hsom⟩ := map_eq_some_iff.1 hexe
  obtain ⟨session,hses⟩ := isSome_iff_exists.1 hsom
  have hrea : (authSystem exampleLimits exampleCrypto).Reachable w :=
    ⟨_,_,⟨some exampleVerifier,fun v hv => by cases hv; decide,rfl⟩,TransitionSystem.run_of_exec hw⟩
  obtain ⟨hacc,-⟩ := dashboard_sessions_die exampleCrypto_collisionFree hrea (.refl w) (letters 2)
  exact ⟨w,session,hrea,hses,hacc 5000 session hses⟩

end Qubicl.Cli.Dashboard
