import Qubicl.Gateway.Tickets

/-!
# The authority of a viewer follows its credential

A ticket or a session that is honoured was got with a bearer credential that had the
interactive scope, and the token hash of that credential is still one of the route's.
-/

namespace Qubicl.Viewing
open Foundation Gateway List Option

variable {hashToken : String → String} {d d' : Desk}

/-- The ticket was issued for the computer to a bearer credential with the interactive scope. -/
def Issued (hashToken : String → String) (d : Desk) (ticket id : ℕ) (tokenHash : String) : Prop :=
  ∃ issue ∈ d.issued, issue.ticket=ticket ∧ issue.id=id ∧
    ∃ client, Desk.requireBearer hashToken issue.token issue.route=some client ∧
      client.scopes.contains .interactive=true ∧ client.tokenHash=tokenHash

/-- The computer's route has a credential with that token hash. -/
def Desk.Known (d : Desk) (id : ℕ) (tokenHash : String) : Prop :=
  ∃ route, d.routes id=some route ∧ ∃ client ∈ routeClientCredentials route, client.tokenHash=tokenHash

theorem routeAcceptsTokenHash_iff (route : CredentialRoute) (tokenHash : String) :
    routeAcceptsTokenHash route.route tokenHash=true ↔
      ∃ client ∈ routeClientCredentials route, client.tokenHash=tokenHash := by
  have hhas : routeAcceptsTokenHash route.route tokenHash=true ↔
      route.route.tokenHash=tokenHash ∨ ∃ client ∈ route.credentials, client.tokenHash=tokenHash := by
    simp [routeAcceptsTokenHash,route.hashes]
  rw [hhas]
  unfold routeClientCredentials
  split
  next hdef =>
    obtain ⟨client,hmem,hcli⟩ := any_eq_true.1 hdef
    have hcli' : client.tokenHash=route.route.tokenHash := by simpa using hcli
    constructor
    · intro h
      rcases h with heq | hknown
      · exact ⟨client,hmem,hcli'.trans heq⟩
      · exact hknown
    · intro h
      exact Or.inr h
  next =>
    constructor
    · intro h
      rcases h with heq | ⟨client,hmem,hcli⟩
      · exact ⟨_,mem_cons_self,heq⟩
      · exact ⟨client,mem_cons_of_mem _ hmem,hcli⟩
    · intro ⟨client,hmem,hcli⟩
      rcases mem_cons.1 hmem with rfl | hrest
      · exact Or.inl hcli
      · exact Or.inr ⟨client,hrest,hcli⟩

structure Provenance (hashToken : String → String) (d : Desk) : Prop where
  agrees : ∀ id, d.gateway.routes id=(d.routes id).map CredentialRoute.route
  tickets : ∀ t ∈ d.tickets, t.key<d.nextTicket ∧ t.key ∉ d.exchanged.map Prod.fst ∧
    Issued hashToken d t.key t.id t.tokenHash
  spent : ∀ ticket ∈ d.exchanged.map Prod.fst, ticket<d.nextTicket
  once : (d.exchanged.map Prod.fst).Nodup
  sessions : ∀ s ∈ d.gateway.sessions, ∃ ticket, (ticket,s.key) ∈ d.exchanged ∧
    Issued hashToken d ticket s.id s.tokenHash

theorem validTicket_some {id ticket : ℕ} {found : ViewTicket} (h : d.validTicket id ticket=some found) :
    found ∈ d.tickets ∧ found.key=ticket ∧ found.id=id ∧ d.accepts found=true ∧ found.expired=false := by
  obtain ⟨hfou,hval⟩ := filter_eq_some_iff.1 h
  simp only [Bool.and_eq_true,decide_eq_true_eq,Bool.not_eq_true'] at hval
  exact ⟨mem_of_find?_eq_some hfou,by simpa using find?_some hfou,hval.1.1,hval.1.2,hval.2⟩

namespace Provenance

theorem weaken (h : Provenance hashToken d) {g : Gateway} {tickets : List ViewTicket}
    (hg : Descends d.gateway g) (htic : ∀ t ∈ tickets, t ∈ d.tickets) :
    Provenance hashToken { d with gateway := g, tickets := tickets } :=
  { h with
    agrees := fun id => by
      rw [hg.routes]
      exact h.agrees id
    tickets := fun t ht => h.tickets t (htic t ht)
    sessions := fun s hs => by
      obtain ⟨old,hold,hkey,hid,hhas⟩ := hg.sessions s hs
      rw [hkey,hid,hhas]
      exact h.sessions old hold }

theorem issueTicket (h : Provenance hashToken d) (id : ℕ) (token : String) (limited : Bool) :
    Provenance hashToken (d.issueTicket hashToken id token limited) := by
  unfold Desk.issueTicket
  split
  next => exact h
  next route hrou =>
    split
    next =>
      split
      next => exact h
      next client hcli =>
        split
        next hsco =>
          have hpru : Provenance hashToken ({ d with gateway := d.gateway.pruneExpired } : Desk).pruneTickets :=
            h.weaken (.prune d.gateway) fun t ht => (mem_filter.1 ht).1
          dsimp only
          split
          next => exact hpru
          next =>
            have hgro : ∀ {ticket id' : ℕ} {tokenHash : String}, Issued hashToken d ticket id' tokenHash →
                ∃ issue ∈ d.issued++[⟨d.nextTicket,id,token,route⟩], issue.ticket=ticket ∧ issue.id=id' ∧
                  ∃ client, Desk.requireBearer hashToken issue.token issue.route=some client ∧
                    client.scopes.contains .interactive=true ∧ client.tokenHash=tokenHash :=
              fun ⟨issue,hiss,hmat⟩ => ⟨issue,mem_append_left _ hiss,hmat⟩
            exact
              { agrees := hpru.agrees
                tickets := fun t ht => by
                  rcases mem_append.1 ht with hold | hnew
                  · obtain ⟨hlt,hfre,hisd⟩ := hpru.tickets t hold
                    exact ⟨Nat.lt_succ_of_lt hlt,hfre,hgro hisd⟩
                  · rw [mem_singleton.1 hnew]
                    refine ⟨Nat.lt_succ_self _,?_,?_⟩
                    · intro hspe
                      have := h.spent _ hspe
                      exact absurd this (Nat.lt_irrefl _)
                    · exact ⟨_,mem_append_right _ (mem_singleton_self _),rfl,rfl,client,hcli,hsco,rfl⟩
                spent := fun ticket hspe => Nat.lt_succ_of_lt (h.spent ticket hspe)
                once := h.once
                sessions := fun s hs => by
                  obtain ⟨ticket,hexc,hisd⟩ := hpru.sessions s hs
                  exact ⟨ticket,hexc,hgro hisd⟩ }
        next => exact h
    next => exact h

theorem openSession_cases {g g' : Gateway} {id : ℕ} {tokenHash : String} (hste : g.openSession id tokenHash=some g') :
    g'.routes=g.routes ∧ ∀ s ∈ g'.sessions, s ∈ g.sessions ∨ s=⟨g.nextKey,id,tokenHash,false,false⟩ := by
  unfold Gateway.openSession at hste
  split at hste
  next =>
    split at hste
    next =>
      cases hste
      refine ⟨rfl,fun s hs => ?_⟩
      rcases mem_append.1 hs with hold | hnew
      · exact Or.inl hold
      · exact Or.inr (mem_singleton.1 hnew)
    next => cases hste
  next => cases hste

theorem exchange (h : Provenance hashToken d) (id ticket : ℕ) : Provenance hashToken (d.exchange id ticket) := by
  unfold Desk.exchange
  split
  next => exact h
  next found hfou =>
    obtain ⟨hmem,hkey,hid,_,_⟩ := validTicket_some hfou
    obtain ⟨hlt,hfre,hiss⟩ := h.tickets found hmem
    rw [hkey] at hlt hfre hiss
    rw [hid] at hiss
    have hspe : Provenance hashToken { d with tickets := d.tickets.filter (·.key≠ticket) } :=
      h.weaken (.same rfl rfl) fun t ht => (mem_filter.1 ht).1
    dsimp only
    split
    next => exact hspe
    next =>
      split
      next g hope =>
        obtain ⟨hrou,hses⟩ := openSession_cases hope
        exact
          { agrees := fun id' => by
              show g.routes id'=_
              rw [hrou]
              exact h.agrees id'
            tickets := fun t ht => by
              obtain ⟨hlt',hfre',hiss'⟩ := hspe.tickets t ht
              refine ⟨hlt',?_,hiss'⟩
              have hne : t.key≠ticket := by simpa using (mem_filter.1 ht).2
              simp only [map_append,map_cons,map_nil,mem_append,mem_singleton,not_or]
              exact ⟨hfre',hne⟩
            spent := fun ticket' hspe' => by
              simp only [map_append,map_cons,map_nil,mem_append,mem_singleton] at hspe'
              rcases hspe' with hold | hnew
              · exact h.spent ticket' hold
              · rw [hnew]
                exact hlt
            once := by
              simp only [map_append,map_cons,map_nil]
              apply List.Nodup.append h.once (nodup_singleton _)
              intro ticket' hold hnew
              rw [mem_singleton.1 hnew] at hold
              exact hfre hold
            sessions := fun s hs => by
              rcases hses s hs with hold | hnew
              · obtain ⟨ticket',hexc,hiss'⟩ := h.sessions s hold
                exact ⟨ticket',mem_append_left _ hexc,hiss'⟩
              · rw [hnew]
                exact ⟨ticket,mem_append_right _ (mem_singleton_self _),hiss⟩ }
      next => exact hspe

theorem proceed (h : Provenance hashToken d) {action : GatewayAction} (hste : d.proceed action=some d') :
    Provenance hashToken d' := by
  unfold Desk.proceed at hste
  split at hste
  next => cases hste
  next => cases hste
  next hope hrou =>
    obtain ⟨g,hg,rfl⟩ := map_eq_some_iff.1 hste
    have hdes : Descends d.gateway g := .step hope hrou hg
    split
    · exact h.weaken hdes fun t ht => (mem_filter.1 ht).1
    · exact h.weaken hdes fun t ht => ht

theorem step (h : Provenance hashToken d) {action : DeskAction} (hste : deskStep hashToken d action=some d') :
    Provenance hashToken d' := by
  cases action with
  | reload routes =>
    cases hste
    exact { h with agrees := fun id => rfl }
  | issueTicket id token limited =>
    cases hste
    exact h.issueTicket id token limited
  | exchange id ticket =>
    cases hste
    exact h.exchange id ticket
  | expireTicket ticket =>
    cases hste
    exact
      { h with
        tickets := fun t ht => by
          obtain ⟨old,hold,rfl⟩ := mem_map.1 ht
          split
          · exact h.tickets old hold
          · exact h.tickets old hold }
  | proceed action => exact h.proceed hste

theorem start (routes : ℕ → Option CredentialRoute) : Provenance hashToken (Desk.start routes) where
  agrees := fun _ => rfl
  tickets := fun _ ht => absurd ht not_mem_nil
  spent := fun _ hspe => absurd hspe not_mem_nil
  once := nodup_nil
  sessions := fun _ hs => absurd hs not_mem_nil

theorem known (h : Provenance hashToken d) {id : ℕ} {tokenHash : String} {route : RuntimeRoute}
    (hrou : d.gateway.routes id=some route) (hacc : routeAcceptsTokenHash route tokenHash=true) :
    d.Known id tokenHash := by
  rw [h.agrees] at hrou
  obtain ⟨full,hful,rfl⟩ := map_eq_some_iff.1 hrou
  exact ⟨full,hful,(routeAcceptsTokenHash_iff full tokenHash).1 hacc⟩

end Provenance

structure FollowsCredential (hashToken : String → String) (d : Desk) : Prop where
  once : (d.exchanged.map Prod.fst).Nodup
  ticket : ∀ id ticket found, d.validTicket id ticket=some found →
    Issued hashToken d ticket id found.tokenHash ∧ d.Known id found.tokenHash
  session : ∀ id key s, (d.gateway.validViewSession key id).2=some s →
    ∃ ticket, (ticket,key) ∈ d.exchanged ∧ Issued hashToken d ticket id s.tokenHash ∧ d.Known id s.tokenHash

theorem viewer_authority (hashToken : String → String) {d : Desk} (h : (deskSystem hashToken).Reachable d) :
    FollowsCredential hashToken d := by
  have hinv : Provenance hashToken d := by
    apply h.invariant (P := fun d => Provenance hashToken d)
    · intro d ⟨routes,heq⟩
      rw [heq]
      exact .start routes
    · intro d action d' h hste
      exact h.step hste
  exact
    { once := hinv.once
      ticket := fun id ticket found hfou => by
        obtain ⟨hmem,hkey,hid,hacc,_⟩ := validTicket_some hfou
        have hissued:=(hinv.tickets found hmem).2.2
        rw [hkey,hid] at hissued
        refine ⟨hissued,?_⟩
        unfold Desk.accepts at hacc
        split at hacc
        next route hrou =>
          rw [hid] at hrou
          exact hinv.known hrou hacc
        next => cases hacc
      session := fun id key s hs => by
        obtain ⟨hmem,hkey,hid,hacc,_⟩ := validViewSession_some hs
        obtain ⟨ticket,hexc,hissued⟩ := hinv.sessions s (mem_filter.1 hmem).1
        rw [hkey] at hexc
        rw [hid] at hissued
        refine ⟨ticket,hexc,hissued,?_⟩
        unfold Gateway.accepts at hacc
        split at hacc
        next route hrou =>
          rw [hid] at hrou
          exact hinv.known hrou hacc
        next => cases hacc }

def demoCredentialRoute (scopes : List Core.ClientCredentialScope) : CredentialRoute where
  route := ⟨"10.0.0.2",none,some 6080,some 6081,"key",none,[.viewer],
    "c32f580a7dd9e01033b6dfff466163bcd6aba7f92b3cf314d334a8560aaf01b6",
    ["c32f580a7dd9e01033b6dfff466163bcd6aba7f92b3cf314d334a8560aaf01b6"]⟩
  credentials := [⟨"default","Default client",
    "c32f580a7dd9e01033b6dfff466163bcd6aba7f92b3cf314d334a8560aaf01b6",scopes⟩]
  hashes := rfl

def demoHash : String → String := fun token =>
  if token = "qubicl-demo-token-0123456789abcdef" then
    "c32f580a7dd9e01033b6dfff466163bcd6aba7f92b3cf314d334a8560aaf01b6"
  else token

def demoExchange : List DeskAction :=
  [.reload [(0,demoCredentialRoute [.observe,.interactive])],
    .issueTicket 0 "qubicl-demo-token-0123456789abcdef" false,.exchange 0 0]

theorem viewer_authority_run :
    ∃ d, (deskSystem demoHash).Reachable d ∧ ((d.gateway.validViewSession 0 0).2).isSome=true ∧
      FollowsCredential demoHash d := by
  have hexe : ((deskSystem demoHash).exec (Desk.start fun _ => none) demoExchange).map (fun d =>
      ((d.gateway.validViewSession 0 0).2).isSome)=some true := by decide
  obtain ⟨d,hrun,hval⟩ := map_eq_some_iff.1 hexe
  have hrea : (deskSystem demoHash).Reachable d :=
    ⟨_,_,⟨_,rfl⟩,TransitionSystem.run_of_exec hrun⟩
  exact ⟨d,hrea,hval,viewer_authority demoHash hrea⟩

/-- The credential loses the interactive scope and keeps its token: the session goes on. -/
theorem narrowed_credential_honoured :
    ¬ ∀ hashToken d, (deskSystem hashToken).Reachable d → ∀ id key s,
      (d.gateway.validViewSession key id).2=some s →
      ∃ route, d.routes id=some route ∧ ∃ client ∈ routeClientCredentials route,
        client.tokenHash=s.tokenHash ∧ client.scopes.contains .interactive=true := by
  intro h
  have hexe : ((deskSystem demoHash).exec (Desk.start fun _ => none) (demoExchange ++
      [.reload [(0,demoCredentialRoute [.observe])]])).map (fun d =>
      (((d.gateway.validViewSession 0 0).2).isSome,(d.routes 0).all fun route =>
        (routeClientCredentials route).all fun client => !client.scopes.contains .interactive)) =
      some (true,true) := by decide
  obtain ⟨d,hrun,hsta⟩ := map_eq_some_iff.1 hexe
  simp only [Prod.mk.injEq] at hsta
  obtain ⟨s,hs⟩ := isSome_iff_exists.1 hsta.1
  obtain ⟨route,hrou,client,hcli,_,hsco⟩ :=
    h demoHash d ⟨_,_,⟨_,rfl⟩,TransitionSystem.run_of_exec hrun⟩ 0 0 s hs
  have hnon:=hsta.2
  rw [hrou] at hnon
  have hnot:=all_eq_true.1 hnon client hcli
  rw [hsco] at hnot
  cases hnot

end Qubicl.Viewing
