import Mathlib.Algebra.Order.Ring.Int
import Mathlib.Data.List.Count
import Qubicl.Cli.Dashboard.Guesses
import Qubicl.Cli.Dashboard.Sessions

/-!
# Every step stays within the budget of wrong passwords

The invariants of the buckets and of the guesses, each taken through the pruning of the buckets, a failure that is
counted and a bucket that is cleared, and from there through the steps of the system.
-/

namespace Qubicl.Cli.Dashboard
open Foundation DashboardAuthManager List Option

section Counting
variable {α : Type*} {key : String} {value : α} {map : List (String × α)}

theorem countP_mapSet_le_succ (p : String × α → Bool) :
    (mapSet key value map).countP p ≤ map.countP p+1 := by
  induction map with
  | nil =>
    simp only [mapSet,countP_cons,countP_nil]
    split <;> omega
  | cons head rest ih =>
    obtain ⟨k,v⟩ := head
    unfold mapSet
    split
    next =>
      simp only [countP_cons]
      split <;> split <;> omega
    next =>
      simp only [countP_cons]
      split <;> omega

theorem countP_mapSet_le (p : String × α → Bool)
    (h : p (key,value)=true → ∃ old, map.lookup key=some old ∧ p (key,old)=true) :
    (mapSet key value map).countP p ≤ map.countP p := by
  induction map with
  | nil =>
    by_cases hp : p (key,value)=true
    · obtain ⟨old,hold,-⟩ := h hp
      cases hold
    · simp [mapSet,hp]
  | cons head rest ih =>
    obtain ⟨k,v⟩ := head
    unfold mapSet
    split
    next hk =>
      subst hk
      simp only [countP_cons]
      by_cases hp : p (k,value)=true
      · obtain ⟨old,hold,hpol⟩ := h hp
        obtain rfl : v=old := by simpa using hold
        rw [if_pos hp,if_pos hpol]
      · rw [if_neg hp]
        omega
    next hk =>
      simp only [countP_cons]
      have hres:=ih fun hp => by
        obtain ⟨old,hold,hpol⟩ := h hp
        exact ⟨old,by simpa [lookup_cons,beq_eq_false_iff_ne.2 fun heq : key=k => hk heq.symm] using hold,hpol⟩
      omega

theorem length_mapSet_le : (mapSet key value map).length ≤ map.length+1 := by
  rw [length_mapSet]
  split <;> omega

end Counting

def counted (bucket : Option RateBucket) (now : ℤ) : RateBucket :=
  ⟨(activeBucket bucket now).failures+1,(activeBucket bucket now).resetsAt⟩

def renewed (global : RateBucket) (now : ℤ) : RateBucket :=
  if global.resetsAt≤now then ⟨0,now+rateWindowMs⟩ else global

def lasting (peers : List (String × RateBucket)) (now : ℤ) : List (String × RateBucket) :=
  peers.filter fun entry => !decide (entry.2.resetsAt≤now)

def failureCapacity : ℕ := globalFailureLimit+maxKdfQueue+1

/-- The bucket of all peers counts the buckets of peers that were opened while it lasts; those that were opened before
it and still count were opened while the one before it lasted. -/
structure Buckets (global : RateBucket) (peers : List (String × RateBucket)) (attempts : List Attempt) (clock : ℤ) :
    Prop where
  started : 0≤clock
  reset_le : global.resetsAt≤clock+rateWindowMs
  peer_le : ∀ entry ∈ peers, entry.2.resetsAt≤clock+rateWindowMs
  peer_lt : ∀ entry ∈ peers, entry.2.resetsAt<global.resetsAt+rateWindowMs
  nodup : (peers.map Prod.fst).Nodup
  began : ∀ a ∈ attempts, a.now<global.resetsAt
  waiting : waitingKeys attempts ≤ maxKdfQueue+1
  failures : global.failures+waitingKeys attempts≤failureCapacity
  recent : peers.countP (fun entry => global.resetsAt≤entry.2.resetsAt)≤global.failures
  earlier : peers.countP (fun entry => global.resetsAt - rateWindowMs<entry.2.resetsAt ∧
    entry.2.resetsAt<global.resetsAt)≤failureCapacity
  room : peers.length+waitingKeys attempts≤2*failureCapacity

section Buckets
variable {global : RateBucket} {peers : List (String × RateBucket)} {attempts attempts' : List Attempt} {clock now : ℤ}

theorem Buckets.later (h : Buckets global peers attempts clock) (hle : clock≤now) :
    Buckets global peers attempts now := by
  refine { h with started := h.started.trans hle, reset_le := ?_, peer_le := fun entry hent => ?_ }
  · exact h.reset_le.trans (by omega)
  · exact (h.peer_le entry hent).trans (by omega)

theorem Buckets.fewer (h : Buckets global peers attempts clock) (hbeg : ∀ a ∈ attempts', a.now<global.resetsAt)
    (hwai : waitingKeys attempts'≤waitingKeys attempts) : Buckets global peers attempts' clock :=
  { h with
    began := hbeg
    waiting := hwai.trans h.waiting
    failures := by have := h.failures; omega
    room := by have := h.room; omega }

theorem Buckets.sublist (h : Buckets global peers attempts clock) {peers' : List (String × RateBucket)}
    (hsub : peers'.Sublist peers) : Buckets global peers' attempts clock :=
  { h with
    peer_le := fun entry hent => h.peer_le entry (hsub.subset hent)
    peer_lt := fun entry hent => h.peer_lt entry (hsub.subset hent)
    nodup := h.nodup.sublist (hsub.map _)
    recent := (hsub.countP_le).trans h.recent
    earlier := (hsub.countP_le).trans h.earlier
    room := by have := hsub.length_le; have := h.room; omega }

theorem renewed_reset (h : global.resetsAt≤clock) : renewed global clock=⟨0,clock+rateWindowMs⟩ := by
  rw [renewed,if_pos h]

theorem renewed_lasts (h : clock<global.resetsAt) : renewed global clock=global := by
  rw [renewed,if_neg (by omega)]

theorem lt_renewed (global : RateBucket) (clock : ℤ) : clock<(renewed global clock).resetsAt := by
  have hwin : 0<rateWindowMs := by decide
  unfold renewed
  split
  next => show clock<clock+rateWindowMs; omega
  next => omega

theorem mem_lasting {entry : String × RateBucket} (h : entry ∈ lasting peers clock) :
    entry ∈ peers ∧ clock<entry.2.resetsAt := by
  obtain ⟨hmem,hlas⟩ := mem_filter.1 h
  exact ⟨hmem,by simpa using hlas⟩

theorem Buckets.opened (h : Buckets global peers attempts clock) (hres : global.resetsAt≤clock)
    (p : String × RateBucket → Bool) (hp : ∀ entry ∈ peers, p entry=true → clock<entry.2.resetsAt) :
    peers.countP p≤failureCapacity := by
  have hle : peers.countP p≤peers.countP fun entry => global.resetsAt≤entry.2.resetsAt := by
    refine countP_mono_left fun entry hent hpe => ?_
    have hlas:=hp entry hent hpe
    exact decide_eq_true (by omega)
  have hrec:=h.recent
  have hfai:=h.failures
  omega

theorem Buckets.prune (h : Buckets global peers attempts clock) :
    Buckets (renewed global clock) (lasting peers clock) attempts clock := by
  have hfew : Buckets global (lasting peers clock) attempts clock := h.sublist filter_sublist
  by_cases hres : global.resetsAt≤clock
  · rw [renewed_reset hres]
    have hnew : ∀ entry ∈ lasting peers clock, entry.2.resetsAt<clock+rateWindowMs := by
      intro entry hent
      have hlt:=hfew.peer_lt entry hent
      omega
    have hwin : 0<rateWindowMs := by decide
    refine { hfew with
      reset_le := le_rfl
      peer_lt := fun entry hent => (hnew entry hent).trans (by simpa using hwin)
      began := fun a ha => (h.began a ha).trans (by simp only []; omega)
      failures := ?_
      recent := ?_
      earlier := ?_ }
    · have hwai:=h.waiting
      have hcap : maxKdfQueue+1≤failureCapacity := by decide
      simp only []
      omega
    · refine le_of_eq (countP_eq_zero.2 fun entry hent hrec => ?_)
      have hlt:=hnew entry hent
      have hle : clock+rateWindowMs≤entry.2.resetsAt := by simpa using hrec
      omega
    · exact hfew.opened hres _ fun entry hent _ => (mem_lasting hent).2
  · rw [renewed_lasts (by omega)]
    exact hfew

theorem Buckets.length_le (h : Buckets global peers attempts clock)
    (hlag : ∀ entry ∈ peers, clock<entry.2.resetsAt) : peers.length≤global.failures+failureCapacity := by
  have hspl:=length_eq_countP_add_countP (fun entry : String × RateBucket =>
    decide (global.resetsAt≤entry.2.resetsAt)) (l := peers)
  have hear : peers.countP (fun entry => !decide (global.resetsAt≤entry.2.resetsAt))≤failureCapacity := by
    refine (countP_mono_left fun entry hent hnot => ?_).trans h.earlier
    have hlas:=hlag entry hent
    have hres:=h.reset_le
    have hlt : entry.2.resetsAt<global.resetsAt := by simpa using hnot
    exact decide_eq_true ⟨by omega,hlt⟩
  have hrec:=h.recent
  simp only [decide_eq_true_eq,decide_not] at hspl
  omega

theorem counted_reset (h : global.resetsAt≤clock) : counted (some global) clock=⟨1,clock+rateWindowMs⟩ := by
  simp only [counted,activeBucket,if_pos h]

theorem counted_lasts (h : clock<global.resetsAt) :
    counted (some global) clock=⟨global.failures+1,global.resetsAt⟩ := by
  simp only [counted,activeBucket,if_neg (not_le.2 h)]

/- A failure opens a bucket or is counted in the one that lasts. -/
theorem counted_cases (bucket : Option RateBucket) (now : ℤ) :
    (∃ old, bucket=some old ∧ now<old.resetsAt ∧ counted bucket now=⟨old.failures+1,old.resetsAt⟩) ∨
      (∀ old, bucket=some old → old.resetsAt≤now) ∧ counted bucket now=⟨1,now+rateWindowMs⟩ := by
  cases bucket with
  | none => exact .inr ⟨fun old heq => (by cases heq),rfl⟩
  | some old =>
    by_cases hend : old.resetsAt≤now
    · exact .inr ⟨fun old' heq => by cases heq; exact hend,counted_reset hend⟩
    · exact .inl ⟨old,rfl,not_le.1 hend,counted_lasts (not_le.1 hend)⟩

theorem Buckets.counted_le (h : Buckets global peers attempts clock) (peer : String) :
    clock<(counted (peers.lookup peer) clock).resetsAt ∧
      (counted (peers.lookup peer) clock).resetsAt≤clock+rateWindowMs := by
  have hwin : 0<rateWindowMs := by decide
  rcases counted_cases (peers.lookup peer) clock with ⟨old,hold,hlas,heq⟩ | ⟨-,heq⟩
  · rw [heq]
    exact ⟨hlas,h.peer_le _ (mem_of_lookup hold)⟩
  · rw [heq]
    exact ⟨by simpa using hwin,le_rfl⟩

theorem Buckets.recordFailure (h : Buckets global peers attempts clock) (peer : String)
    (hbeg : ∀ a ∈ attempts', a.now<global.resetsAt) (hwai : waitingKeys attempts' ≤ maxKdfQueue+1)
    (hfai : global.failures+1+waitingKeys attempts'≤failureCapacity)
    (hroo : peers.length+1+waitingKeys attempts'≤2*failureCapacity) :
    Buckets (counted (some global) clock) (mapSet peer (counted (peers.lookup peer) clock) peers) attempts' clock := by
  have hwin : 0<rateWindowMs := by decide
  obtain ⟨hlat,hbou⟩ := h.counted_le peer
  have hens : ∀ entry ∈ mapSet peer (counted (peers.lookup peer) clock) peers,
      entry.2=counted (peers.lookup peer) clock ∨ entry ∈ peers := fun entry hent =>
    (mem_mapSet hent).imp_left fun heq => by rw [heq]
  have hpee : ∀ entry ∈ mapSet peer (counted (peers.lookup peer) clock) peers,
      entry.2.resetsAt≤clock+rateWindowMs := by
    intro entry hent
    rcases hens entry hent with heq | hold
    · exact heq ▸ hbou
    · exact h.peer_le entry hold
  have hlen : (mapSet peer (counted (peers.lookup peer) clock) peers).length≤peers.length+1 := length_mapSet_le
  -- the bucket of the peer is as old as the one that is counted in, or new
  have holder (start : ℤ) (hsta : start≤clock+rateWindowMs) (p : String × RateBucket → Bool)
      (hp : ∀ entry, p entry=true → entry.2.resetsAt<start)
      (hsam : ∀ k b b', b.resetsAt=b'.resetsAt → p (k,b)=p (k,b')) :
      (mapSet peer (counted (peers.lookup peer) clock) peers).countP p≤peers.countP p := by
    refine countP_mapSet_le p fun hcou => ?_
    rcases counted_cases (peers.lookup peer) clock with ⟨old,hold,-,heq⟩ | ⟨-,heq⟩
    · exact ⟨old,hold,by rw [← hcou,heq]; exact hsam _ _ _ rfl⟩
    · have hlt:=hp _ hcou
      rw [heq] at hlt
      simp only [] at hlt
      omega
  by_cases hres : global.resetsAt≤clock
  · rw [counted_reset hres]
    refine ⟨h.started,le_rfl,hpee,fun entry hent => ?_,nodup_mapSet h.nodup,fun a ha => ?_,hwai,?_,?_,?_,?_⟩
    · have hle:=hpee entry hent
      simp only []
      omega
    · have hlt:=hbeg a ha
      simp only []
      omega
    · simp only []
      omega
    · refine (countP_mapSet_le_succ _).trans ?_
      have hnon : peers.countP (fun entry => clock+rateWindowMs≤entry.2.resetsAt)=0 := by
        refine countP_eq_zero.2 fun entry hent hrec => ?_
        have hlt:=h.peer_lt entry hent
        have hle : clock+rateWindowMs≤entry.2.resetsAt := by simpa using hrec
        omega
      simp only [hnon]
      omega
    · refine (holder (clock+rateWindowMs) le_rfl _ ?_ ?_).trans (h.opened hres _ ?_)
      · intro entry hcou
        exact (of_decide_eq_true hcou).2
      · intro k b b' hsam
        simp only [hsam]
      · intro entry _ hcou
        have hlt:=(of_decide_eq_true hcou).1
        simp only [] at hlt
        omega
    · omega
  · rw [counted_lasts (not_le.1 hres)]
    refine ⟨h.started,h.reset_le,hpee,fun entry hent => ?_,nodup_mapSet h.nodup,hbeg,hwai,hfai,?_,?_,?_⟩
    · have hle:=hpee entry hent
      simp only []
      omega
    · exact (countP_mapSet_le_succ _).trans (Nat.add_le_add_right h.recent 1)
    · refine (holder global.resetsAt h.reset_le _ ?_ ?_).trans h.earlier
      · intro entry hcou
        exact (of_decide_eq_true hcou).2
      · intro k b b' hsam
        simp only [hsam]
    · omega

end Buckets

theorem waitingKeysOf_le (peer : String) (attempts : List Attempt) : waitingKeysOf peer attempts≤waitingKeys attempts := by
  unfold waitingKeysOf waitingKeys
  rw [← countP_eq_length_filter,← countP_eq_length_filter]
  exact countP_mono_left fun a _ h => (Bool.and_eq_true _ _ ▸ h).1

theorem lookup_lasting {peers : List (String × RateBucket)} (hnod : (peers.map Prod.fst).Nodup) (now : ℤ) (peer : String) :
    (lasting peers now).lookup peer=(peers.lookup peer).filter fun bucket => !decide (bucket.resetsAt≤now) := by
  induction peers with
  | nil => rfl
  | cons head rest ih =>
    obtain ⟨k,bucket⟩ := head
    obtain ⟨hfre,hres⟩ := nodup_cons.1 hnod
    have ih:=ih hres
    unfold lasting at ih ⊢
    rw [filter_cons]
    by_cases hk : peer=k
    · subst hk
      rw [lookup_cons_self,filter_some]
      split
      next => rw [lookup_cons_self]
      next =>
        rw [ih]
        have hnon : rest.lookup peer=none := by
          by_contra hsom
          obtain ⟨b,hb⟩ := ne_none_iff_exists'.1 hsom
          exact hfre (mem_map.2 ⟨_,mem_of_lookup hb,rfl⟩)
        rw [hnon]
        rfl
    · have hne : (peer == k)=false := beq_eq_false_iff_ne.2 hk
      rw [lookup_cons,hne]
      split
      next => rw [lookup_cons,hne,ih]
      next => exact ih

def bucketEnd (peers : List (String × RateBucket)) (clock : ℤ) (peer : String) : ℤ :=
  ((peers.lookup peer).map RateBucket.resetsAt).getD clock

/-- The guesses are counted as failures in the buckets that last, and with the keys that are still to be derived they
stay below the bounds. -/
structure Tallied (global : RateBucket) (peers : List (String × RateBucket)) (attempts : List Attempt) (clock : ℤ)
    (guesses : List Guess) (clears : List String) : Prop where
  global_le : ∀ guess ∈ guesses, guess.globalBucket≤global.resetsAt
  global_count : ∀ bucket, globalCount guesses bucket≤globalFailureLimit+maxKdfQueue
  global_now : globalCount guesses global.resetsAt≤global.failures
  global_open : globalCount guesses global.resetsAt+waitingKeys attempts≤globalFailureLimit+maxKdfQueue
  peer_count : ∀ peer bucket cleared, peerCount guesses peer bucket cleared≤peerFailureLimit+maxKdfQueue
  peer_clears : ∀ guess ∈ guesses, guess.cleared≤clears.count guess.peer
  peer_le : ∀ guess ∈ guesses, guess.cleared=clears.count guess.peer →
    guess.peerBucket≤bucketEnd peers clock guess.peer
  peer_now : ∀ peer bucket, peers.lookup peer=some bucket →
    peerCount guesses peer bucket.resetsAt (clears.count peer)≤bucket.failures
  peer_open : ∀ peer bucket, peers.lookup peer=some bucket →
    peerCount guesses peer bucket.resetsAt (clears.count peer)+waitingKeysOf peer attempts ≤
      peerFailureLimit+maxKdfQueue

variable {peer : String}

section Tallied
variable {global : RateBucket} {peers : List (String × RateBucket)} {attempts attempts' : List Attempt} {clock now : ℤ}
  {guesses : List Guess} {clears : List String}

theorem bucketEnd_some {bucket : RateBucket} (h : peers.lookup peer=some bucket) :
    bucketEnd peers clock peer=bucket.resetsAt := by
  rw [bucketEnd,h]
  rfl

theorem bucketEnd_none (h : peers.lookup peer=none) : bucketEnd peers clock peer=clock := by
  rw [bucketEnd,h]
  rfl

section
variable (h : Tallied global peers attempts clock guesses clears)
include h

theorem Tallied.later (hle : clock≤now) :
    Tallied global peers attempts now guesses clears := by
  refine { h with peer_le := fun guess hgue hcle => (h.peer_le guess hgue hcle).trans ?_ }
  unfold bucketEnd
  cases peers.lookup guess.peer with
  | none => exact hle
  | some bucket => exact le_rfl

theorem Tallied.fewer
    (hwai : waitingKeys attempts'≤waitingKeys attempts)
    (hof : ∀ peer, waitingKeysOf peer attempts'≤waitingKeysOf peer attempts) :
    Tallied global peers attempts' clock guesses clears :=
  { h with
    global_open := (Nat.add_le_add_left hwai _).trans h.global_open
    peer_open := fun peer bucket hbuc => (Nat.add_le_add_left (hof peer) _).trans (h.peer_open peer bucket hbuc) }

theorem Tallied.globalCount_new {bucket : ℤ}
    (hnew : global.resetsAt<bucket) : globalCount guesses bucket=0 := by
  refine countP_eq_zero.2 fun guess hgue hcou => ?_
  have hle:=h.global_le guess hgue
  have heq : guess.globalBucket=bucket := by simpa using hcou
  omega

theorem Tallied.peerCount_new {bucket : ℤ} (hnew : bucketEnd peers clock peer<bucket) :
    peerCount guesses peer bucket (clears.count peer)=0 := by
  refine countP_eq_zero.2 fun guess hgue hcou => ?_
  obtain ⟨hpee,hbuc,hcle⟩ : guess.peer=peer ∧ guess.peerBucket=bucket ∧
    guess.cleared=clears.count peer := by simpa using hcou
  subst hpee
  have hle:=h.peer_le guess hgue hcle
  omega

theorem Tallied.prune
    (hnod : (peers.map Prod.fst).Nodup) (hwai : waitingKeys attempts ≤ maxKdfQueue+1) (hnow : now≤clock) :
    Tallied (renewed global now) (lasting peers now) attempts clock guesses clears := by
  have hpee : ∀ peer bucket, (lasting peers now).lookup peer=some bucket → peers.lookup peer=some bucket := by
    intro peer bucket hbuc
    rw [lookup_lasting hnod] at hbuc
    exact (filter_eq_some_iff.1 hbuc).1
  have hend : ∀ peer, bucketEnd peers clock peer≤bucketEnd (lasting peers now) clock peer := by
    intro peer
    cases hbuc : peers.lookup peer with
    | none =>
      have hgon : (lasting peers now).lookup peer=none := by rw [lookup_lasting hnod,hbuc]; rfl
      rw [bucketEnd_none hbuc,bucketEnd_none hgon]
    | some bucket =>
      by_cases hlas : bucket.resetsAt≤now
      · have hgon : (lasting peers now).lookup peer=none := by
          rw [lookup_lasting hnod,hbuc,filter_some,if_neg (by simpa using hlas)]
        rw [bucketEnd_some hbuc,bucketEnd_none hgon]
        exact hlas.trans hnow
      · have hkep : (lasting peers now).lookup peer=some bucket := by
          rw [lookup_lasting hnod,hbuc,filter_some,if_pos (by simpa using hlas)]
        rw [bucketEnd_some hbuc,bucketEnd_some hkep]
  have hper : Tallied global (lasting peers now) attempts clock guesses clears :=
    { h with
      peer_le := fun guess hgue hcle => (h.peer_le guess hgue hcle).trans (hend guess.peer)
      peer_now := fun peer bucket hbuc => h.peer_now peer bucket (hpee peer bucket hbuc)
      peer_open := fun peer bucket hbuc => h.peer_open peer bucket (hpee peer bucket hbuc) }
  by_cases hres : global.resetsAt≤now
  · have hwin : 0<rateWindowMs := by decide
    have hnew : global.resetsAt<now+rateWindowMs := by omega
    have hcou:=h.globalCount_new hnew
    rw [renewed_reset hres]
    refine { hper with
      global_le := fun guess hgue => (h.global_le guess hgue).trans hnew.le
      global_now := hcou.le
      global_open := ?_ }
    have hcap : maxKdfQueue+1≤globalFailureLimit+maxKdfQueue := by decide
    show globalCount guesses (now+rateWindowMs)+_≤_
    omega
  · rw [renewed_lasts (by omega)]
    exact hper

theorem Tallied.admit {a : Attempt}
    (hwai : waitingKeys (attempts++[a]) ≤ maxKdfQueue+1) (hglo : global.failures<globalFailureLimit)
    (hpee : ∀ bucket, peers.lookup a.peer=some bucket → bucket.failures<peerFailureLimit) :
    Tallied global peers (attempts++[a]) clock guesses clears := by
  refine { h with global_open := ?_, peer_open := fun peer bucket hbuc => ?_ }
  · have hnow:=h.global_now
    omega
  · by_cases hsam : a.peer=peer
    · subst hsam
      have hnow:=h.peer_now _ bucket hbuc
      have hfew:=hpee bucket hbuc
      have hof:=waitingKeysOf_le a.peer (attempts++[a])
      omega
    · have hof : waitingKeysOf peer (attempts++[a])=waitingKeysOf peer attempts := by
        unfold waitingKeysOf
        rw [filter_append]
        simp [hsam]
      rw [hof]
      exact h.peer_open peer bucket hbuc

/-- A failure that is counted leaves room for one guess. -/
theorem Tallied.recordFailure (peer : String)
    (hwai : waitingKeys attempts ≤ maxKdfQueue+1) :
    Tallied (counted (some global) clock) (mapSet peer (counted (peers.lookup peer) clock) peers) attempts clock guesses
        clears ∧
      globalCount guesses (counted (some global) clock).resetsAt+1≤(counted (some global) clock).failures ∧
      peerCount guesses peer (counted (peers.lookup peer) clock).resetsAt (clears.count peer)+1 ≤
        (counted (peers.lookup peer) clock).failures := by
  have hwin : 0<rateWindowMs := by decide
  have hcap : maxKdfQueue+1≤peerFailureLimit+maxKdfQueue := by decide
  have hcap' : maxKdfQueue+1≤globalFailureLimit+maxKdfQueue := by decide
  -- the bucket of all peers
  have hglo : global.resetsAt≤(counted (some global) clock).resetsAt ∧
      globalCount guesses (counted (some global) clock).resetsAt+1≤(counted (some global) clock).failures ∧
      globalCount guesses (counted (some global) clock).resetsAt+waitingKeys attempts ≤
        globalFailureLimit+maxKdfQueue := by
    by_cases hres : global.resetsAt≤clock
    · rw [counted_reset hres]
      have hnew : global.resetsAt<clock+rateWindowMs := by omega
      have hcou:=h.globalCount_new hnew
      simp only [hcou]
      omega
    · rw [counted_lasts (not_le.1 hres)]
      exact ⟨le_rfl,Nat.add_le_add_right h.global_now 1,h.global_open⟩
  -- the bucket of the peer
  have hpee : bucketEnd peers clock peer≤(counted (peers.lookup peer) clock).resetsAt ∧
      peerCount guesses peer (counted (peers.lookup peer) clock).resetsAt (clears.count peer)+1 ≤
        (counted (peers.lookup peer) clock).failures ∧
      peerCount guesses peer (counted (peers.lookup peer) clock).resetsAt (clears.count peer) +
        waitingKeysOf peer attempts≤peerFailureLimit+maxKdfQueue := by
    rcases counted_cases (peers.lookup peer) clock with ⟨old,hold,-,heq⟩ | ⟨hene,heq⟩
    · rw [heq,bucketEnd_some hold]
      exact ⟨le_rfl,Nat.add_le_add_right (h.peer_now peer old hold) 1,h.peer_open peer old hold⟩
    · have hend : bucketEnd peers clock peer≤clock := by
        cases hbuc : peers.lookup peer with
        | none => exact (bucketEnd_none hbuc).le
        | some old => exact (bucketEnd_some hbuc).le.trans (hene old hbuc)
      have hcou:=h.peerCount_new (lt_of_le_of_lt hend (by omega : clock<clock+rateWindowMs))
      have hof:=waitingKeysOf_le peer attempts
      rw [heq]
      simp only [hcou]
      omega
  obtain ⟨hlat,hroo,hope⟩ := hglo
  obtain ⟨hpeerLater,hpeerRoom,hpeerOpen⟩ := hpee
  refine ⟨{ h with
    global_le := fun guess hgue => (h.global_le guess hgue).trans hlat
    global_now := by omega
    global_open := hope
    peer_le := fun guess hgue hcle => (h.peer_le guess hgue hcle).trans ?_
    peer_now := fun other bucket hbuc => ?_
    peer_open := fun other bucket hbuc => ?_ },hroo,hpeerRoom⟩
  · by_cases hsam : guess.peer=peer
    · have hset : bucketEnd (mapSet peer (counted (peers.lookup peer) clock) peers) clock guess.peer =
          (counted (peers.lookup peer) clock).resetsAt := bucketEnd_some (by rw [lookup_mapSet,if_pos hsam])
      rw [hset,hsam]
      exact hpeerLater
    · refine le_of_eq ?_
      unfold bucketEnd
      rw [lookup_mapSet,if_neg hsam]
  · rw [lookup_mapSet] at hbuc
    split at hbuc
    next hsam =>
      cases hbuc
      rw [hsam]
      omega
    next => exact h.peer_now other bucket hbuc
  · rw [lookup_mapSet] at hbuc
    split at hbuc
    next hsam =>
      cases hbuc
      rw [hsam]
      exact hpeerOpen
    next => exact h.peer_open other bucket hbuc

theorem Tallied.guess {bucket : RateBucket} (hbuc : peers.lookup peer=some bucket)
    (hglo : globalCount guesses global.resetsAt+1≤global.failures)
    (hpee : peerCount guesses peer bucket.resetsAt (clears.count peer)+1≤bucket.failures)
    (hwai : waitingKeys attempts'+1≤waitingKeys attempts)
    (hof : ∀ other, waitingKeysOf other attempts'+(if other=peer then 1 else 0)≤waitingKeysOf other attempts) :
    Tallied global peers attempts' clock (⟨peer,global.resetsAt,bucket.resetsAt,clears.count peer⟩::guesses)
      clears := by
  have hglobalCount (b : ℤ) : globalCount (⟨peer,global.resetsAt,bucket.resetsAt,clears.count peer⟩::guesses) b =
      globalCount guesses b+if global.resetsAt=b then 1 else 0 := by
    simp [globalCount,countP_cons]
  have hpeerCount (p : String) (b : ℤ) (k : ℕ) :
      peerCount (⟨peer,global.resetsAt,bucket.resetsAt,clears.count peer⟩::guesses) p b k =
        peerCount guesses p b k+if peer=p ∧ bucket.resetsAt=b ∧ clears.count peer=k then 1 else 0 := by
    simp [peerCount,countP_cons]
  have hope:=h.global_open
  have hpeerOpen:=h.peer_open peer bucket hbuc
  have hofPeer:=hof peer
  rw [if_pos rfl] at hofPeer
  refine ⟨fun guess hgue => ?_,fun b => ?_,?_,?_,fun p b k => ?_,fun guess hgue => ?_,
    fun guess hgue hcle => ?_,fun p b hb => ?_,fun p b hb => ?_⟩
  · rcases mem_cons.1 hgue with rfl | hold
    · exact le_rfl
    · exact h.global_le guess hold
  · rw [hglobalCount]
    split
    next heq =>
      rw [← heq]
      omega
    next => exact h.global_count b
  · rw [hglobalCount,if_pos rfl]
    exact hglo
  · rw [hglobalCount,if_pos rfl]
    omega
  · rw [hpeerCount]
    split
    next hsam =>
      obtain ⟨rfl,rfl,rfl⟩ := hsam
      omega
    next => exact h.peer_count p b k
  · rcases mem_cons.1 hgue with rfl | hold
    · exact le_rfl
    · exact h.peer_clears guess hold
  · rcases mem_cons.1 hgue with rfl | hold
    · exact (bucketEnd_some hbuc).ge
    · exact h.peer_le guess hold hcle
  · rw [hpeerCount]
    split
    next hsam =>
      obtain ⟨rfl,-,-⟩ := hsam
      rw [hbuc] at hb
      cases hb
      exact hpee
    next => exact h.peer_now p b hb
  · have hofOther:=hof p
    have hopenOther:=h.peer_open p b hb
    rw [hpeerCount]
    split
    next hsam =>
      obtain ⟨rfl,-,-⟩ := hsam
      rw [hbuc] at hb
      cases hb
      omega
    next => omega

theorem Tallied.clear (peer : String) :
    Tallied global (mapDelete peer peers) attempts clock guesses (peer::clears) := by
  have hoth {other : String} (hne : other≠peer) : (peer::clears).count other=clears.count other :=
    count_cons_of_ne (fun heq => hne heq.symm)
  have hkep : ∀ other bucket, (mapDelete peer peers).lookup other=some bucket →
      other≠peer ∧ peers.lookup other=some bucket := by
    intro other bucket hbuc
    rw [lookup_mapDelete] at hbuc
    split at hbuc
    next => cases hbuc
    next hne => exact ⟨hne,hbuc⟩
  refine { h with
    peer_clears := fun guess hgue => (h.peer_clears guess hgue).trans (count_le_count_cons)
    peer_le := fun guess hgue hcle => ?_
    peer_now := fun other bucket hbuc => ?_
    peer_open := fun other bucket hbuc => ?_ }
  · by_cases hsam : guess.peer=peer
    · have hle:=h.peer_clears guess hgue
      rw [hcle,hsam,count_cons_self] at hle
      omega
    · rw [hoth hsam] at hcle
      refine (h.peer_le guess hgue hcle).trans (le_of_eq ?_)
      unfold bucketEnd
      rw [lookup_mapDelete,if_neg hsam]
  · obtain ⟨hne,hbuc⟩ := hkep other bucket hbuc
    rw [hoth hne]
    exact h.peer_now other bucket hbuc
  · obtain ⟨hne,hbuc⟩ := hkep other bucket hbuc
    rw [hoth hne]
    exact h.peer_open other bucket hbuc

end

end Tallied

/-- Both invariants, of the buckets of a manager. -/
structure Bounds (m : DashboardAuthManager) (attempts : List Attempt) (clock : ℤ) (guesses : List Guess)
    (clears : List String) : Prop where
  buckets : Buckets m.globalFailures m.peerFailures attempts clock
  tallied : Tallied m.globalFailures m.peerFailures attempts clock guesses clears

section Bounds
variable {m m' : DashboardAuthManager} {attempts attempts' : List Attempt} {clock now : ℤ} {guesses : List Guess}
  {clears : List String} {limits : SessionLimits}

def SameBuckets (m m' : DashboardAuthManager) : Prop :=
  m'.globalFailures=m.globalFailures ∧ m'.peerFailures=m.peerFailures

section
variable (h : Bounds m attempts clock guesses clears)
include h

theorem Bounds.same (hsam : SameBuckets m m') :
    Bounds m' attempts clock guesses clears := by
  obtain ⟨hglo,hpee⟩ := hsam
  refine ⟨?_,?_⟩
  · rw [hglo,hpee]
    exact h.buckets
  · rw [hglo,hpee]
    exact h.tallied

theorem Bounds.later (hle : clock≤now) :
    Bounds m attempts now guesses clears := ⟨h.buckets.later hle,h.tallied.later hle⟩

theorem Bounds.fewer
    (hbeg : ∀ a ∈ attempts', a.now < m.globalFailures.resetsAt)
    (hof : ∀ p : Attempt → Bool, (attempts'.filter fun a => !a.derived && p a).length ≤
      (attempts.filter fun a => !a.derived && p a).length) : Bounds m attempts' clock guesses clears := by
  have hwai : waitingKeys attempts'≤waitingKeys attempts := by simpa [waitingKeys] using hof fun _ => true
  exact ⟨h.buckets.fewer hbeg hwai,h.tallied.fewer hwai fun peer => hof fun a => a.peer == peer⟩

theorem Bounds.prune :
    Bounds (m.prune limits clock) attempts clock guesses clears :=
  ⟨h.buckets.prune,h.tallied.prune h.buckets.nodup h.buckets.waiting le_rfl⟩

theorem Bounds.pruneEarlier (hnow : now≤clock)
    (hlas : now < m.globalFailures.resetsAt) : Bounds (m.prune limits now) attempts clock guesses clears := by
  refine ⟨?_,h.tallied.prune h.buckets.nodup h.buckets.waiting hnow⟩
  have hsam : (m.prune limits now).globalFailures=m.globalFailures := renewed_lasts hlas
  rw [hsam]
  exact h.buckets.sublist filter_sublist

theorem Bounds.clear (peer : String) :
    Bounds (m.clearPeerFailures peer) attempts clock guesses (peer::clears) :=
  ⟨h.buckets.sublist filter_sublist,h.tallied.clear peer⟩

theorem Bounds.room : m.peerFailures.length < maxRateBuckets := by
  have hroo:=h.buckets.room
  have hcap : 2*failureCapacity < maxRateBuckets := by decide
  omega

end

theorem recordFailure_eq (peer : String) (now : ℤ) (hroo : m.peerFailures.length < maxRateBuckets) :
    m.recordFailure peer now = { m with
      peerFailures := mapSet peer (counted (m.peerFailures.lookup peer) now) m.peerFailures
      globalFailures := counted (some m.globalFailures) now } := by
  unfold DashboardAuthManager.recordFailure
  rw [if_neg (fun h => absurd h.2 (by omega))]
  rfl

theorem attemptAllowed_ok (h : m.attemptAllowed peer now=.ok ()) :
    m.globalFailures.failures<globalFailureLimit ∧
      ∀ bucket, m.peerFailures.lookup peer=some bucket → bucket.failures<peerFailureLimit := by
  unfold attemptAllowed at h
  simp only [] at h
  split at h
  next => cases h
  next hlim =>
    obtain ⟨hpee,hglo⟩ := not_or.1 hlim
    refine ⟨not_le.1 hglo,fun bucket hbuc => ?_⟩
    rw [hbuc] at hpee
    exact not_le.1 hpee

theorem Bounds.recordFailure (h : Bounds m attempts clock guesses clears)
    (hlas : ∀ entry ∈ m.peerFailures, clock<entry.2.resetsAt) (hfai : m.globalFailures.failures<globalFailureLimit) :
    Bounds (m.recordFailure peer clock) attempts clock guesses clears := by
  have hlen:=h.buckets.length_le hlas
  have hwai:=h.buckets.waiting
  have hcap : failureCapacity=globalFailureLimit+maxKdfQueue+1 := rfl
  rw [recordFailure_eq peer clock h.room]
  exact ⟨h.buckets.recordFailure peer h.buckets.began hwai (by omega) (by omega),
    (h.tallied.recordFailure peer hwai).1⟩

theorem Bounds.wrong (h : Bounds m attempts clock guesses clears) (hsub : ∀ a ∈ attempts', a ∈ attempts)
    (hwai : waitingKeys attempts'+1≤waitingKeys attempts)
    (hof : ∀ other, waitingKeysOf other attempts'+(if other=peer then 1 else 0)≤waitingKeysOf other attempts) :
    Bounds (m.recordFailure peer clock) attempts' clock
      (⟨peer,(m.recordFailure peer clock).globalFailures.resetsAt,
        (((m.recordFailure peer clock).peerFailures.lookup peer).map RateBucket.resetsAt).getD 0,clears.count peer⟩ ::
          guesses) clears := by
  have hbuc:=h.buckets.waiting
  have hfai:=h.buckets.failures
  have hroo:=h.buckets.room
  obtain ⟨htal,hglo,hpee⟩ := h.tallied.recordFailure peer hbuc
  have hloo : (mapSet peer (counted (m.peerFailures.lookup peer) clock) m.peerFailures).lookup peer =
      some (counted (m.peerFailures.lookup peer) clock) := by rw [lookup_mapSet,if_pos rfl]
  rw [recordFailure_eq peer clock h.room]
  simp only [hloo,map_some,getD_some]
  exact ⟨h.buckets.recordFailure peer (fun a ha => h.buckets.began a (hsub a ha)) (by omega) (by omega) (by omega),
    htal.guess hloo hglo hpee hwai hof⟩

theorem Bounds.admit (h : Bounds m attempts clock guesses clears)
    (hlas : ∀ entry ∈ m.peerFailures, clock<entry.2.resetsAt) {a : Attempt} (hnow : a.now < m.globalFailures.resetsAt)
    (hwai : waitingKeys (attempts++[a]) ≤ maxKdfQueue+1)
    (hall : m.attemptAllowed a.peer now=.ok ()) : Bounds m (attempts++[a]) clock guesses clears := by
  obtain ⟨hglo,hpee⟩ := attemptAllowed_ok hall
  have hlen:=h.buckets.length_le hlas
  have hcap : failureCapacity=globalFailureLimit+maxKdfQueue+1 := rfl
  refine ⟨{ h.buckets with
    began := fun b hb => ?_
    waiting := hwai
    failures := by omega
    room := by omega }, h.tallied.admit hwai hglo hpee⟩
  rcases mem_append.1 hb with hold | hnew
  · exact h.buckets.began b hold
  · rw [mem_singleton.1 hnew]
    exact hnow

end Bounds

section Attempts
variable {limits : SessionLimits} {crypto : DashboardCrypto} {w w' : AuthWorld} {clock : ℤ} {guesses : List Guess}
  {clears : List String}

theorem waitingKeys_append (attempts : List Attempt) {a : Attempt} (h : a.derived=false) :
    waitingKeys (attempts++[a])=waitingKeys attempts+1 := by
  simp [waitingKeys,filter_append,h]

theorem Bounds.attempt (h : Bounds w.manager w.attempts clock guesses clears) (session : Option (ℕ × String))
    (password : Option String) (peer : String) :
    (w.attempt limits session password peer clock).attempts=w.attempts ∧
        Bounds (w.attempt limits session password peer clock).manager w.attempts clock guesses clears ∨
      ∃ a, a.derived=false ∧ a.now=clock ∧
        (w.attempt limits session password peer clock).attempts=w.attempts++[a] ∧
        Bounds (w.attempt limits session password peer clock).manager w.attempts clock guesses clears ∧
        (waitingKeys (w.attempts++[a]) ≤ maxKdfQueue+1 →
          Bounds (w.attempt limits session password peer clock).manager (w.attempts++[a]) clock guesses clears) := by
  have hpru : Bounds (w.manager.prune limits clock) w.attempts clock guesses clears := h.prune
  have hlas : ∀ entry ∈ (w.manager.prune limits clock).peerFailures, clock<entry.2.resetsAt :=
    fun entry hent => (mem_lasting hent).2
  unfold AuthWorld.attempt
  simp only [AuthWorld.onManager]
  split
  next => exact .inl ⟨rfl,hpru⟩
  next => exact .inl ⟨rfl,hpru⟩
  next verifier hall hver =>
    split
    next => exact .inl ⟨rfl,hpru.recordFailure hlas (attemptAllowed_ok hall).1⟩
    next password =>
      split
      next => exact .inl ⟨rfl,hpru.recordFailure hlas (attemptAllowed_ok hall).1⟩
      next =>
        refine .inr ⟨_,rfl,rfl,rfl,hpru,fun hwai => ?_⟩
        exact hpru.admit hlas (lt_renewed w.manager.globalFailures clock) hwai hall

theorem drop_waiting {a : Attempt} (ha : a ∈ w.attempts) (hder : a.derived=false) :
    waitingKeys (w.drop a).attempts+1≤waitingKeys w.attempts ∧
      ∀ other, waitingKeysOf other (w.drop a).attempts+(if other=a.peer then 1 else 0) ≤
        waitingKeysOf other w.attempts := by
  have hles (p : Attempt → Bool) (hp : p a=true) :
      ((w.attempts.filter (·.began≠a.began)).filter p).length+1≤(w.attempts.filter p).length := by
    have hsub : ((w.attempts.filter (·.began≠a.began)).filter p).Sublist (w.attempts.filter p) :=
      filter_sublist.filter p
    refine Nat.lt_of_le_of_ne hsub.length_le fun heq => ?_
    have hmem : a ∈ w.attempts.filter p := mem_filter.2 ⟨ha,hp⟩
    rw [← hsub.eq_of_length heq,mem_filter,mem_filter] at hmem
    simp at hmem
  refine ⟨hles _ (by simp [hder]),fun other => ?_⟩
  split
  next heq => exact hles _ (by simp [hder,heq])
  next => exact (filter_sublist.filter _).length_le

theorem Bounds.drop (h : Bounds w.manager w.attempts clock guesses clears) (a : Attempt) :
    Bounds w.manager (w.drop a).attempts clock guesses clears :=
  h.fewer (fun b hb => h.buckets.began b (mem_filter.1 hb).1) fun _ => (filter_sublist.filter _).length_le

theorem Bounds.derived (h : Bounds w.manager w.attempts clock guesses clears) (a : Attempt) :
    Bounds w.manager (w.attempts.map fun b => if b=a then { b with derived := true } else b) clock guesses clears := by
  refine h.fewer (fun b hb => ?_) fun p => ?_
  · obtain ⟨b',hb',rfl⟩ := mem_map.1 hb
    have hbeg:=h.buckets.began b' hb'
    split <;> exact hbeg
  · rw [← countP_eq_length_filter,← countP_eq_length_filter,countP_map]
    refine countP_mono_left fun b _ hb => ?_
    simp only [Function.comp_apply] at hb
    split at hb
    next => simp at hb
    next => exact hb

theorem activeRecord_buckets (limits : SessionLimits) (m : DashboardAuthManager) (hash : String) (now : ℤ) :
    SameBuckets m (m.activeRecord limits hash now).2 := by
  unfold activeRecord
  split
  next => exact ⟨rfl,rfl⟩
  next => split <;> exact ⟨rfl,rfl⟩

theorem authenticate_buckets (m : DashboardAuthManager) (token : String) (now : ℤ) :
    SameBuckets m (m.authenticate limits crypto token now).2 := by
  unfold DashboardAuthManager.authenticate
  split
  next => exact ⟨rfl,rfl⟩
  next => exact activeRecord_buckets limits m _ now

theorem hasValidCsrf_buckets (m : DashboardAuthManager) (token supplied : String) (now : ℤ) :
    SameBuckets m (m.hasValidCsrf limits crypto token supplied now).2 := by
  unfold DashboardAuthManager.hasValidCsrf
  split
  next => exact ⟨rfl,rfl⟩
  next => exact activeRecord_buckets limits m _ now

theorem recordActivity_buckets (limits : SessionLimits) (crypto : DashboardCrypto) (w : AuthWorld) (token : String) (now again : ℤ) :
    SameBuckets w.manager (w.recordActivity limits crypto token now again).manager ∧
      (w.recordActivity limits crypto token now again).attempts=w.attempts := by
  have hsam : SameBuckets w.manager (w.manager.recordActivity limits crypto token now again).2 := by
    have hact:=activeRecord_buckets limits w.manager (crypto.tokenHash token) now
    unfold DashboardAuthManager.recordActivity
    split
    next m hfou =>
      rw [hfou] at hact
      exact hact
    next record m hfou =>
      rw [hfou] at hact
      exact hact
  unfold AuthWorld.recordActivity
  split
  next m hfou =>
    rw [hfou] at hsam
    exact ⟨hsam,rfl⟩
  next session m hfou =>
    rw [hfou] at hsam
    exact ⟨hsam,rfl⟩

theorem revoke_buckets (limits : SessionLimits) (w : AuthWorld) (sessionId : String) (now : ℤ) :
    SameBuckets (w.manager.prune limits now) (w.revoke limits sessionId now).manager ∧
      (w.revoke limits sessionId now).attempts=w.attempts := by
  have hsam : SameBuckets (w.manager.prune limits now) (w.manager.revoke limits sessionId now).2 := by
    unfold DashboardAuthManager.revoke
    dsimp only
    split <;> exact ⟨rfl,rfl⟩
  unfold AuthWorld.revoke
  split
  next m hfou =>
    rw [hfou] at hsam
    exact ⟨hsam,rfl⟩
  next m hfou =>
    rw [hfou] at hsam
    exact ⟨hsam,rfl⟩

theorem replacePasswordVerifier_buckets (w : AuthWorld) (verifier : DashboardPasswordVerifier) :
    SameBuckets w.manager (w.replacePasswordVerifier verifier).manager ∧
      (w.replacePasswordVerifier verifier).attempts=w.attempts := by
  unfold AuthWorld.replacePasswordVerifier
  split <;> exact ⟨⟨rfl,rfl⟩,rfl⟩

theorem refreshPasswordVerifier_buckets (w : AuthWorld) (verifier : DashboardPasswordVerifier) :
    SameBuckets w.manager (w.refreshPasswordVerifier verifier).manager ∧
      (w.refreshPasswordVerifier verifier).attempts=w.attempts := by
  unfold AuthWorld.refreshPasswordVerifier
  split
  next => exact ⟨⟨rfl,rfl⟩,rfl⟩
  next => split <;> exact ⟨⟨rfl,rfl⟩,rfl⟩

end Attempts

section SignIns
variable {limits : SessionLimits} {crypto : DashboardCrypto} {w : AuthWorld} {clock : ℤ} {guesses : List Guess}
  {clears : List String} {a : Attempt}

theorem Bounds.resumeLogin (h : Bounds w.manager w.attempts clock guesses clears) (limits : SessionLimits)
    (crypto : DashboardCrypto) (ha : a ∈ w.attempts)
    (hnow : a.now≤clock) (hses : a.session=none) :
    Bounds (w.resumeLogin limits crypto a).manager w.attempts clock guesses
        ((if w.clearsPeer a then [a.peer] else [])++clears) ∧
      (w.resumeLogin limits crypto a).attempts=w.attempts := by
  have hcle : w.clearsPeer a=w.unchanged a := by simp [AuthWorld.clearsPeer,hses]
  rw [hcle]
  unfold AuthWorld.resumeLogin
  split
  next hcha =>
    rw [if_neg (by simpa using hcha)]
    exact ⟨h,rfl⟩
  next hunc =>
    have hsig : (if w.unchanged a=true then [a.peer] else [])=[a.peer] := if_pos (by simpa using hunc)
    rw [hsig]
    have hcld : Bounds ((w.manager.clearPeerFailures a.peer).prune limits a.now) w.attempts clock guesses
        (a.peer::clears) := (h.clear a.peer).pruneEarlier hnow (h.buckets.began a ha)
    dsimp only
    split
    next => exact ⟨hcld,rfl⟩
    next => exact ⟨hcld.same ⟨rfl,rfl⟩,rfl⟩

theorem Bounds.resumeReauthenticate (h : Bounds w.manager w.attempts clock guesses clears) (limits : SessionLimits)
    (crypto : DashboardCrypto) {ref : ℕ} {hash : String} (hses : a.session=some (ref,hash)) :
    Bounds (w.resumeReauthenticate limits crypto a ref hash).manager w.attempts clock guesses
        ((if w.clearsPeer a then [a.peer] else [])++clears) ∧
      (w.resumeReauthenticate limits crypto a ref hash).attempts=w.attempts := by
  unfold AuthWorld.resumeReauthenticate AuthWorld.clearsPeer
  rw [hses]
  by_cases hunc : w.unchanged a=true
  · simp only [hunc,Bool.not_true,Bool.false_eq_true,if_false,Bool.true_and]
    split
    next hnon =>
      simp only [hnon,any_none,Bool.false_eq_true,if_false,nil_append]
      exact ⟨h,trivial⟩
    next record hrec =>
      simp only [hrec,any_some]
      split
      next hoth =>
        have hfal : (record.ref == ref && record.tokenHash == hash)=false := by
          rcases hoth with href | hhash
          · simp [href]
          · simp [hhash]
        simp only [hfal,Bool.false_eq_true,if_false,nil_append]
        exact ⟨h,trivial⟩
      next hsam =>
        obtain ⟨href,hhash⟩ := not_or.1 hsam
        simp only [not_not.1 href,not_not.1 hhash,beq_self_eq_true,Bool.and_self,if_true,singleton_append]
        exact ⟨(h.clear a.peer).same ⟨rfl,rfl⟩,rfl⟩
  · simp only [Bool.not_eq_true] at hunc
    simp only [hunc,Bool.not_false,if_true,Bool.false_and,Bool.false_eq_true,if_false,nil_append]
    exact ⟨h,trivial⟩

theorem Bounds.resume (h : Bounds w.manager w.attempts clock guesses clears) (limits : SessionLimits)
    (crypto : DashboardCrypto) (ha : a ∈ w.attempts) (hnow : a.now≤clock) :
    Bounds (w.resume limits crypto a).manager (w.drop a).attempts clock guesses
        ((if w.clearsPeer a then [a.peer] else [])++clears) ∧
      (w.resume limits crypto a).attempts=(w.drop a).attempts := by
  unfold AuthWorld.resume
  split
  next hses =>
    obtain ⟨hbou,hatt⟩ := h.resumeLogin limits crypto ha hnow hses
    refine ⟨?_,by simp only [AuthWorld.drop,hatt]⟩
    rw [← hatt] at hbou
    have hdro:=hbou.drop a
    simp only [AuthWorld.drop,hatt] at hdro
    exact hdro
  next ref hash hses =>
    obtain ⟨hbou,hatt⟩ := h.resumeReauthenticate limits crypto hses
    refine ⟨?_,by simp only [AuthWorld.drop,hatt]⟩
    rw [← hatt] at hbou
    have hdro:=hbou.drop a
    simp only [AuthWorld.drop,hatt] at hdro
    exact hdro

end SignIns

structure Budget (g : GuessWorld) : Prop where
  bounds : Bounds g.auth.manager g.auth.attempts g.clock g.guesses g.clears
  works : g.others+waitingKeys g.auth.attempts ≤ maxKdfQueue+1
  begun : ∀ a ∈ g.auth.attempts, a.now≤g.clock

section Runs
variable {limits : SessionLimits} {crypto : DashboardCrypto} {g g' : GuessWorld} {after : AuthWorld}

section
variable (h : Budget g) {clock : ℤ} {guesses : List Guess} {clears : List String} (hle : g.clock≤clock)
include h hle

/- A step that begins no attempt. -/
theorem Budget.settled
    (hbou : Bounds after.manager after.attempts clock guesses clears)
    (hlen : after.attempts.length≤g.auth.attempts.length)
    (hwai : waitingKeys after.attempts≤waitingKeys g.auth.attempts)
    (hsam : ∀ a ∈ after.attempts, ∃ b ∈ g.auth.attempts, a.now=b.now) :
    Budget { g with auth := g.schedule after, clock, guesses, clears } := by
  have hsch : g.schedule after=after := by
    unfold GuessWorld.schedule
    rw [if_neg (fun hful => absurd hful.1 (not_lt.2 hlen))]
  rw [hsch]
  refine ⟨hbou,(Nat.add_le_add_left hwai _).trans h.works,fun a ha => ?_⟩
  obtain ⟨b,hb,heq⟩ := hsam a ha
  exact heq ▸ (h.begun b hb).trans hle

theorem Budget.idle
    (hbou : Bounds after.manager g.auth.attempts clock guesses clears) (hatt : after.attempts=g.auth.attempts) :
    Budget { g with auth := g.schedule after, clock, guesses, clears } :=
  h.settled hle (hatt ▸ hbou) (hatt ▸ le_rfl) (hatt ▸ le_rfl)
    fun a ha => ⟨a,hatt ▸ ha,rfl⟩

end

theorem Budget.scheduled (h : Budget g) {clock : ℤ} {a : Attempt} (hle : g.clock≤clock)
    (hatt : after.attempts=g.auth.attempts++[a]) (hder : a.derived=false) (hnow : a.now≤clock)
    (href : Bounds after.manager g.auth.attempts clock g.guesses g.clears)
    (hque : waitingKeys (g.auth.attempts++[a]) ≤ maxKdfQueue+1 →
      Bounds after.manager (g.auth.attempts++[a]) clock g.guesses g.clears) :
    Budget { g with auth := g.schedule after, clock } := by
  have hwor:=h.works
  have hlon : g.auth.attempts.length<after.attempts.length := by rw [hatt]; simp
  have hold : ∀ b ∈ g.auth.attempts, b.now≤clock := fun b hb => (h.begun b hb).trans hle
  unfold GuessWorld.schedule
  split
  next => exact ⟨href,hwor,hold⟩
  next hroo =>
    have hpen : g.pending < maxKdfQueue := by
      by_contra hful
      exact hroo ⟨hlon,not_lt.1 hful⟩
    have happ:=waitingKeys_append g.auth.attempts hder
    unfold GuessWorld.pending at hpen
    refine ⟨?_,?_,fun b hb => ?_⟩
    · show Bounds after.manager after.attempts clock g.guesses g.clears
      rw [hatt]
      exact hque (by omega)
    · show g.others+waitingKeys after.attempts≤_
      rw [hatt]
      omega
    · have hb : b ∈ after.attempts := hb
      rw [hatt] at hb
      rcases mem_append.1 hb with hb | hb
      · exact hold b hb
      · rw [mem_singleton.1 hb]
        exact hnow

end Runs

section Steps
variable {limits : SessionLimits} {crypto : DashboardCrypto} {g g' : GuessWorld} {after w : AuthWorld} {clock : ℤ}

theorem Budget.begins (h : Budget g) (hle : g.clock≤clock) (hw : Bounds w.manager w.attempts clock g.guesses g.clears)
    (hold : w.attempts=g.auth.attempts) {session : Option (ℕ × String)} {password : Option String}
    (hman : after.manager=(w.attempt limits session password peer clock).manager)
    (hatt : after.attempts=(w.attempt limits session password peer clock).attempts) :
    Budget { g with auth := g.schedule after, clock } := by
  rcases hw.attempt session password peer with ⟨hsam,hbou⟩ | ⟨a,hder,hnow,hadd,href,hque⟩
  · refine h.idle hle ?_ (hatt.trans (hsam.trans hold))
    rw [hman,← hold]
    exact hbou
  · rw [hold] at hadd href hque
    refine h.scheduled hle (hatt.trans hadd) hder hnow.le ?_ fun hwai => ?_
    · rw [hman]
      exact href
    · rw [hman]
      exact hque hwai

theorem Budget.derives (h : Budget g) (hle : g.clock≤clock) {number : ℕ} {a : Attempt}
    (hfou : g.auth.waiting number false=some a) (hman : after.manager=(g.auth.derive crypto a clock).manager)
    (hatt : after.attempts=(g.auth.derive crypto a clock).attempts) :
    Budget { g with
      auth := g.schedule after
      clock
      guesses := g.evaluated crypto after (.derive number clock)++g.guesses } := by
  obtain ⟨ha,hder⟩ := waiting_mem hfou
  have hbou:=h.bounds.later hle
  simp only [GuessWorld.evaluated,hfou]
  unfold AuthWorld.derive at hman hatt
  by_cases hmat : passwordMatches crypto a.password a.verifier.value=true
  · rw [if_pos hmat] at hman hatt ⊢
    refine h.settled hle ?_ ?_ ?_ fun b hb => ?_
    · rw [hman,hatt]
      exact hbou.derived a
    · rw [hatt]
      exact (length_map _).le
    · rw [hatt]
      unfold waitingKeys
      rw [← countP_eq_length_filter,← countP_eq_length_filter,countP_map]
      refine countP_mono_left fun b _ hb => ?_
      simp only [Function.comp_apply] at hb
      split at hb
      next => simp at hb
      next => exact hb
    · rw [hatt] at hb
      obtain ⟨b',hb',rfl⟩ := mem_map.1 hb
      exact ⟨b',hb',by split <;> rfl⟩
  · rw [if_neg hmat] at hman hatt ⊢
    have hatt : after.attempts=(g.auth.drop a).attempts := hatt
    have hman : after.manager=g.auth.manager.recordFailure a.peer clock := hman
    obtain ⟨hwai,hof⟩ := drop_waiting ha hder
    have hwro:=hbou.wrong (fun b hb => (mem_filter.1 hb).1) hwai hof
    rw [← hman] at hwro
    refine h.settled hle ?_ ?_ ?_ fun b hb => ?_
    · rw [hatt]
      exact hwro
    · rw [hatt]
      exact length_filter_le _ _
    · rw [hatt]
      omega
    · rw [hatt] at hb
      exact ⟨b,(mem_filter.1 hb).1,rfl⟩

end Steps

section System
variable {limits : SessionLimits} {crypto : DashboardCrypto} {g g' : GuessWorld} {init : GuessWorld}

theorem Budget.call (h : Budget g) {action : AuthAction} {after : AuthWorld}
    (htim : (g.clock::action.times).Pairwise (· ≤ ·)) (haft : g.auth.step limits crypto action=some after) :
    Budget { g with
      auth := g.schedule after
      clock := action.times.getLast?.getD g.clock
      guesses := g.evaluated crypto after action++g.guesses
      clears := g.signedIn action++g.clears } := by
  obtain ⟨w,hrun,rfl⟩ := map_eq_some_iff.1 haft
  have hlat : ∀ now ∈ action.times, g.clock≤now := (pairwise_cons.1 htim).1
  cases action with
  | beginLogin password peer now =>
    cases hrun
    have hle : g.clock≤now := hlat now (by simp [AuthAction.times])
    exact h.begins hle (h.bounds.later hle) rfl rfl rfl
  | beginReauthenticate token password peer now again =>
    cases hrun
    have hle : g.clock≤again := hlat again (by simp [AuthAction.times])
    have hbou:=h.bounds.later hle
    have hsam:=activeRecord_buckets limits g.auth.manager (crypto.tokenHash token) now
    rcases hfou : g.auth.manager.activeRecord limits (crypto.tokenHash token) now with ⟨_ | record,m⟩
    · rw [hfou] at hsam
      simp only [AuthWorld.beginReauthenticate,hfou]
      exact h.idle hle (hbou.same hsam) rfl
    · rw [hfou] at hsam
      simp only [AuthWorld.beginReauthenticate,hfou]
      have hm : Bounds m g.auth.attempts again g.guesses g.clears := hbou.same hsam
      exact h.begins (w := { g.auth with manager := m }) hle hm rfl rfl rfl
  | derive number now =>
    obtain ⟨a,hfou,rfl⟩ := map_eq_some_iff.1 hrun
    have hle : g.clock≤now := hlat now (by simp [AuthAction.times])
    exact h.derives hle hfou rfl rfl
  | fail number =>
    obtain ⟨a,hfou,rfl⟩ := map_eq_some_iff.1 hrun
    exact h.settled le_rfl (h.bounds.drop a) (length_filter_le _ _) (filter_sublist.filter _).length_le
      fun b hb => ⟨b,(mem_filter.1 hb).1,rfl⟩
  | resume number =>
    obtain ⟨a,hfou,rfl⟩ := map_eq_some_iff.1 hrun
    obtain ⟨ha,-⟩ := waiting_mem hfou
    obtain ⟨hbou,hatt⟩ := h.bounds.resume limits crypto ha (h.begun a ha)
    simp only [GuessWorld.signedIn,hfou]
    refine h.settled le_rfl ?_ ?_ ?_ fun b hb => ?_
    · show Bounds _ (g.auth.resume limits crypto a).attempts _ _ _
      rw [hatt]
      exact hbou
    · show (g.auth.resume limits crypto a).attempts.length≤_
      rw [hatt]
      exact length_filter_le _ _
    · show waitingKeys (g.auth.resume limits crypto a).attempts≤_
      rw [hatt]
      exact (filter_sublist.filter _).length_le
    · have hb : b ∈ (g.auth.resume limits crypto a).attempts := hb
      rw [hatt] at hb
      exact ⟨b,(mem_filter.1 hb).1,rfl⟩
  | authenticate token now =>
    cases hrun
    have hle : g.clock≤now := hlat now (by simp [AuthAction.times])
    exact h.idle hle ((h.bounds.later hle).same (authenticate_buckets _ token now)) rfl
  | hasValidCsrf token supplied now =>
    cases hrun
    have hle : g.clock≤now := hlat now (by simp [AuthAction.times])
    exact h.idle hle ((h.bounds.later hle).same (hasValidCsrf_buckets _ token supplied now)) rfl
  | recordActivity token now again =>
    cases hrun
    have hle : g.clock≤again := hlat again (by simp [AuthAction.times])
    obtain ⟨hsam,hatt⟩ := recordActivity_buckets limits crypto g.auth token now again
    exact h.idle hle ((h.bounds.later hle).same hsam) hatt
  | logout token =>
    cases hrun
    exact h.idle le_rfl (h.bounds.same ⟨rfl,rfl⟩) rfl
  | revoke sessionId now =>
    cases hrun
    have hle : g.clock≤now := hlat now (by simp [AuthAction.times])
    obtain ⟨hsam,hatt⟩ := revoke_buckets limits g.auth sessionId now
    exact h.idle hle ((h.bounds.later hle).prune.same hsam) hatt
  | revokeAll =>
    cases hrun
    exact h.idle le_rfl (h.bounds.same ⟨rfl,rfl⟩) rfl
  | replacePasswordVerifier verifier =>
    cases hrun
    obtain ⟨hsam,hatt⟩ := replacePasswordVerifier_buckets g.auth verifier
    exact h.idle le_rfl (h.bounds.same hsam) hatt
  | refreshPasswordVerifier verifier =>
    cases hrun
    obtain ⟨hsam,hatt⟩ := refreshPasswordVerifier_buckets g.auth verifier
    exact h.idle le_rfl (h.bounds.same hsam) hatt
  | removePasswordVerifier =>
    cases hrun
    exact h.idle le_rfl (h.bounds.same ⟨rfl,rfl⟩) rfl
  | list now =>
    cases hrun
    have hle : g.clock≤now := hlat now (by simp [AuthAction.times])
    exact h.idle hle (h.bounds.later hle).prune rfl

theorem Budget.step (h : Budget g) {action : GuessAction} (hste : g.step limits crypto action=some g') :
    Budget g' := by
  have hwor:=h.works
  cases action with
  | call action =>
    simp only [GuessWorld.step] at hste
    split at hste
    next htim =>
      obtain ⟨after,haft,rfl⟩ := map_eq_some_iff.1 hste
      exact h.call htim haft
    next => cases hste
  | otherScheduled =>
    simp only [GuessWorld.step] at hste
    split at hste
    next => cases hste
    next hroo =>
      cases hste
      unfold GuessWorld.pending at hroo
      exact ⟨h.bounds,(by simp only []; omega),h.begun⟩
  | otherDone =>
    simp only [GuessWorld.step] at hste
    split at hste
    next => cases hste
    next =>
      cases hste
      exact ⟨h.bounds,(by simp only []; omega),h.begun⟩

theorem budget_initial (hini : (guessSystem limits crypto).initial init) : Budget init := by
  obtain ⟨⟨verifier,-,haut⟩,hoth,hclo,hgus,hcle⟩ := hini
  have hwin : 0<rateWindowMs := by decide
  have hnon : ∀ (p : String × RateBucket → Prop), ∀ entry ∈ ([] : List (String × RateBucket)), p entry :=
    fun _ _ hent => absurd hent not_mem_nil
  have hbus : Buckets ⟨0,0⟩ [] [] init.clock :=
    ⟨hclo,(by simp only []; omega),hnon _,hnon _,nodup_nil,fun a ha => absurd ha not_mem_nil,
      Nat.zero_le _,Nat.zero_le _,le_rfl,Nat.zero_le _,Nat.zero_le _⟩
  have htal : Tallied ⟨0,0⟩ [] [] init.clock [] [] :=
    ⟨fun guess hgue => absurd hgue not_mem_nil,fun _ => Nat.zero_le _,le_rfl,Nat.zero_le _,
      fun _ _ _ => Nat.zero_le _,fun guess hgue => absurd hgue not_mem_nil,
      fun guess hgue => absurd hgue not_mem_nil,fun _ _ hbuc => (by cases hbuc),
      fun _ _ hbuc => (by cases hbuc)⟩
  refine ⟨?_,?_,?_⟩
  · rw [haut,hgus,hcle]
    exact ⟨hbus,htal⟩
  · rw [haut,hoth]
    exact Nat.zero_le _
  · rw [haut]
    exact fun a ha => absurd ha not_mem_nil

/-- However attempts, derivations and everything else interleave, at most 28 wrong passwords are evaluated while the
bucket of all peers lasts, and at most 13 of a peer while its own does. -/
theorem guesses_within_budget (h : (guessSystem limits crypto).Reachable g) : WithinBudget g := by
  have hbud : Budget g := h.invariant (fun _ => budget_initial) fun _ _ _ hbud hste => hbud.step hste
  exact ⟨hbud.bounds.tallied.global_count,hbud.bounds.tallied.peer_count,hbud.bounds.room⟩

end System

theorem guesses_within_budget_queued : ∃ g, g.guesses=[⟨"peer",301000,302000,0⟩] ∧ g.auth.attempts.length=8 ∧
    WithinBudget g := by
  have hexe : ((guessSystem exampleLimits exampleCrypto).exec
      ⟨AuthWorld.create (some exampleVerifier),0,1000,[],[]⟩
      (List.replicate 10 (.call (.beginLogin (some "not the password") "peer" 1000))++[.call (.derive 0 2000)])).map
        (fun g => (g.guesses,g.auth.attempts.length))=some ([⟨"peer",301000,302000,0⟩],8) := by decide
  obtain ⟨g,hg,hval⟩ := map_eq_some_iff.1 hexe
  have hrea : (guessSystem exampleLimits exampleCrypto).Reachable g := ⟨_,_,
    ⟨⟨some exampleVerifier,fun v hv => (by cases hv; decide),rfl⟩,rfl,by decide,rfl,rfl⟩,
    TransitionSystem.run_of_exec hg⟩
  exact ⟨g,congrArg Prod.fst hval,congrArg Prod.snd hval,guesses_within_budget hrea⟩

end Qubicl.Cli.Dashboard
