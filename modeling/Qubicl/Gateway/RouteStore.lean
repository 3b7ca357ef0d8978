import Qubicl.Foundation.Transition

/-!
# The routes that the gateway serves (packages/gateway/src/routes.ts)

A file is replaced at any time, and reloads and polls read it and its fingerprint at two moments of their own.
-/

namespace Qubicl.Gateway.RouteFile
open Foundation List Option

section Model
variable {Raw Fingerprint Routes : Type}

structure Version (Raw Fingerprint : Type) where
  raw : Raw
  fingerprint : Fingerprint
deriving DecidableEq

/- How far a reload or a poll is: the next step of `reading` is `readFile`, that of `stating` and `polling` is `stat`, and
the other two have the answers that they go on with. -/
inductive Job (Raw Fingerprint : Type)
  | reading
  | stating (raw : Raw)
  | stated (raw : Raw) (fingerprint : Option Fingerprint)
  | polling
  | polled (fingerprint : Fingerprint)
deriving DecidableEq

/- `history` has every version of the file, and no step reads it. Before the first load there are no routes. -/
structure RouteStore (Raw Fingerprint Routes : Type) where
  file : Version Raw Fingerprint
  history : List (Version Raw Fingerprint)
  routes : Option Routes := none
  lastRaw : Option Raw := none
  lastFingerprint : Option Fingerprint := none
  started : Bool := false
  watching : Bool := false
  pollTimer : Bool := false
  reloadTimer : Bool := false
  jobs : ℕ → Option (Job Raw Fingerprint)
  nextJob : ℕ

inductive Action (Raw Fingerprint : Type)
  | replace (version : Version Raw Fingerprint)
  | watch (available : Bool)
  | watchError
  | event
  | reload
  | tick
  | read (i : ℕ)
  | stat (i : ℕ)
  | fail (i : ℕ)
  | finish (i : ℕ)
deriving DecidableEq

namespace RouteStore
variable [DecidableEq Raw] [DecidableEq Fingerprint] (parse : Raw → Option Routes) (s : RouteStore Raw Fingerprint Routes)

/-- `start` reads the file before it watches it. -/
def start (version : Version Raw Fingerprint) : RouteStore Raw Fingerprint Routes where
  file := version
  history := [version]
  jobs := Function.update (fun _ => none) 0 (some .reading)
  nextJob := 1

def put (i : ℕ) (job : Option (Job Raw Fingerprint)) : RouteStore Raw Fingerprint Routes :=
  { s with jobs := Function.update s.jobs i job }

def begin (job : Job Raw Fingerprint) : RouteStore Raw Fingerprint Routes :=
  { s with jobs := Function.update s.jobs s.nextJob (some job), nextJob := s.nextJob+1 }

def replace (version : Version Raw Fingerprint) : RouteStore Raw Fingerprint Routes :=
  { s with file := version, history := version::s.history }

def watch (available : Bool) : Option (RouteStore Raw Fingerprint Routes) :=
  if s.started && !s.watching && !s.pollTimer then some { s with watching := available, pollTimer := !available } else none

def watchError : Option (RouteStore Raw Fingerprint Routes) :=
  if s.watching then some { s with watching := false, pollTimer := true } else none

/-- An event starts the timer of a reload again. -/
def event : Option (RouteStore Raw Fingerprint Routes) :=
  if s.watching then some { s with reloadTimer := true } else none

def reload : Option (RouteStore Raw Fingerprint Routes) :=
  if s.reloadTimer then some ({ s with reloadTimer := false }.begin .reading) else none

def tick : Option (RouteStore Raw Fingerprint Routes) := if s.pollTimer then some (s.begin .polling) else none

def read (i : ℕ) : Option (RouteStore Raw Fingerprint Routes) :=
  match s.jobs i with
  | some .reading => some (s.put i (some (.stating s.file.raw)))
  | _ => none

def stat (i : ℕ) : Option (RouteStore Raw Fingerprint Routes) :=
  match s.jobs i with
  | some (.stating raw) => some (s.put i (some (.stated raw (some s.file.fingerprint))))
  | some .polling => some (s.put i (some (.polled s.file.fingerprint)))
  | _ => none

/-- The file cannot be read or looked at. `start` fails with its first read. -/
def fail (i : ℕ) : Option (RouteStore Raw Fingerprint Routes) :=
  match s.jobs i with
  | some .reading => if s.started then some (s.put i none) else none
  | some (.stating raw) => some (s.put i (some (.stated raw none)))
  | some .polling => some (s.put i none)
  | _ => none

/-- What `reload` does with its two answers. -/
def load (i : ℕ) (raw : Raw) (fingerprint : Option Fingerprint) : Option (RouteStore Raw Fingerprint Routes) :=
  if some raw=s.lastRaw then some ({ s with lastFingerprint := fingerprint }.put i none)
  else
    match parse raw with
    | some routes =>
      some ({ s with lastRaw := some raw, routes := some routes, lastFingerprint := fingerprint, started := true }.put i none)
    | none => if s.started then some ({ s with lastRaw := some raw }.put i none) else none

def finish (i : ℕ) : Option (RouteStore Raw Fingerprint Routes) :=
  match s.jobs i with
  | some (.stated raw fingerprint) => s.load parse i raw fingerprint
  | some (.polled fingerprint) =>
    if some fingerprint≠s.lastFingerprint then some (s.put i (some .reading)) else some (s.put i none)
  | _ => none

def step : Action Raw Fingerprint → Option (RouteStore Raw Fingerprint Routes)
  | .replace version => some (s.replace version)
  | .watch available => s.watch available
  | .watchError => s.watchError
  | .event => s.event
  | .reload => s.reload
  | .tick => s.tick
  | .read i => s.read i
  | .stat i => s.stat i
  | .fail i => s.fail i
  | .finish i => s.finish parse i

/-- Every reload and poll that was started has come to its end. -/
def Quiet : Prop := ∀ i<s.nextJob, s.jobs i=none

/-- The file keeps the content that a reload has read until it has the fingerprint, and a fingerprint belongs to one
content. -/
def steady : Action Raw Fingerprint → Bool
  | .stat i =>
    match s.jobs i with
    | some (.stating raw) => s.file.raw=raw
    | _ => true
  | .replace version => s.history.all fun old => decide (old.fingerprint≠version.fingerprint) || decide (old.raw=version.raw)
  | _ => true

/-- The routes of the file, or those of a valid content that it had. -/
def Serves : Prop :=
  match parse s.file.raw with
  | some routes => s.routes=some routes
  | none => ∃ old ∈ s.history, ∃ routes, parse old.raw=some routes ∧ s.routes=some routes

end RouteStore

def system [DecidableEq Raw] [DecidableEq Fingerprint] (parse : Raw → Option Routes) :
    TransitionSystem (RouteStore Raw Fingerprint Routes) (Action Raw Fingerprint) where
  initial s := ∃ version, s=.start version
  step s a := s.step parse a

end Model

section
variable {Raw Fingerprint Routes : Type} {parse : Raw → Option Routes} {s s' : RouteStore Raw Fingerprint Routes} {i : ℕ}

structure Moves (s s' : RouteStore Raw Fingerprint Routes) (i : ℕ) (job : Option (Job Raw Fingerprint)) : Prop where
  file : s'.file=s.file
  history : s'.history=s.history
  routes : s'.routes=s.routes
  lastRaw : s'.lastRaw=s.lastRaw
  lastFingerprint : s'.lastFingerprint=s.lastFingerprint
  started : s'.started=s.started
  jobs : s'.jobs=Function.update s.jobs i job
  nextJob : s'.nextJob=if i=s.nextJob then s.nextJob+1 else s.nextJob

inductive Change (s : RouteStore Raw Fingerprint Routes) : Action Raw Fingerprint → ℕ → Option (Job Raw Fingerprint) → Prop
  | reload : Change s .reload s.nextJob (some .reading)
  | tick : Change s .tick s.nextJob (some .polling)
  | read (i : ℕ) : s.jobs i=some .reading → Change s (.read i) i (some (.stating s.file.raw))
  | stat (i : ℕ) (raw : Raw) : s.jobs i=some (.stating raw) →
      Change s (.stat i) i (some (.stated raw (some s.file.fingerprint)))
  | poll (i : ℕ) : s.jobs i=some .polling → Change s (.stat i) i (some (.polled s.file.fingerprint))
  | failRead (i : ℕ) : s.jobs i=some .reading → s.started=true → Change s (.fail i) i none
  | failStat (i : ℕ) (raw : Raw) : s.jobs i=some (.stating raw) → Change s (.fail i) i (some (.stated raw none))
  | failPoll (i : ℕ) : s.jobs i=some .polling → Change s (.fail i) i none
  | differs (i : ℕ) (fingerprint : Fingerprint) : s.jobs i=some (.polled fingerprint) →
      some fingerprint≠s.lastFingerprint → Change s (.finish i) i (some .reading)
  | equal (i : ℕ) (fingerprint : Fingerprint) : s.jobs i=some (.polled fingerprint) →
      some fingerprint=s.lastFingerprint → Change s (.finish i) i none

inductive Turn (parse : Raw → Option Routes) (s s' : RouteStore Raw Fingerprint Routes) : Action Raw Fingerprint → Prop
  | replaced (version : Version Raw Fingerprint) : s'=s.replace version → Turn parse s s' (.replace version)
  | idle (a : Action Raw Fingerprint) : (∀ version, a≠.replace version) → a≠.reload → a≠.tick → s'.file=s.file →
      s'.history=s.history → s'.routes=s.routes → s'.lastRaw=s.lastRaw → s'.lastFingerprint=s.lastFingerprint →
      s'.started=s.started → s'.jobs=s.jobs → s'.nextJob=s.nextJob → Turn parse s s' a
  | moved (a : Action Raw Fingerprint) (i : ℕ) (job : Option (Job Raw Fingerprint)) : Change s a i job → Moves s s' i job →
      Turn parse s s' a
  | same (i : ℕ) (raw : Raw) (fingerprint : Option Fingerprint) : s.jobs i=some (.stated raw fingerprint) →
      some raw=s.lastRaw → s' = { s with lastFingerprint := fingerprint }.put i none → Turn parse s s' (.finish i)
  | valid (i : ℕ) (raw : Raw) (fingerprint : Option Fingerprint) (routes : Routes) :
      s.jobs i=some (.stated raw fingerprint) → parse raw=some routes →
      s' = { s with
        lastRaw := some raw, routes := some routes, lastFingerprint := fingerprint, started := true }.put i none →
      Turn parse s s' (.finish i)
  | invalid (i : ℕ) (raw : Raw) (fingerprint : Option Fingerprint) : s.jobs i=some (.stated raw fingerprint) →
      parse raw=none → s.started=true → s' = { s with lastRaw := some raw }.put i none → Turn parse s s' (.finish i)

/-- The jobs that exist are below the next one. -/
def Fresh (s : RouteStore Raw Fingerprint Routes) : Prop := ∀ i, s.nextJob ≤ i → s.jobs i=none

theorem Fresh.ne {job : Job Raw Fingerprint} (h : Fresh s) (hjob : s.jobs i=some job) : i≠s.nextJob := by
  intro heq
  rw [h i (by omega)] at hjob
  cases hjob

theorem moves_put (h : Fresh s) {old : Job Raw Fingerprint} (hold : s.jobs i=some old) (job : Option (Job Raw Fingerprint)) :
    Moves s (s.put i job) i job where
  file := rfl
  history := rfl
  routes := rfl
  lastRaw := rfl
  lastFingerprint := rfl
  started := rfl
  jobs := rfl
  nextJob := (if_neg (h.ne hold)).symm

section
variable [DecidableEq Raw] [DecidableEq Fingerprint]

theorem turn_of_step (hfre : Fresh s) {a : Action Raw Fingerprint} (hste : s.step parse a=some s') :
    Turn parse s s' a := by
  cases a with
  | replace version =>
    obtain rfl := Option.some.inj hste
    exact .replaced version rfl
  | watch available =>
    obtain ⟨-,hsom⟩ := ite_none_right_eq_some.1 hste
    obtain rfl := Option.some.inj hsom
    exact .idle _ (fun _ => by simp) (by simp) (by simp) rfl rfl rfl rfl rfl rfl rfl rfl
  | watchError =>
    obtain ⟨-,hsom⟩ := ite_none_right_eq_some.1 hste
    obtain rfl := Option.some.inj hsom
    exact .idle _ (fun _ => by simp) (by simp) (by simp) rfl rfl rfl rfl rfl rfl rfl rfl
  | event =>
    obtain ⟨-,hsom⟩ := ite_none_right_eq_some.1 hste
    obtain rfl := Option.some.inj hsom
    exact .idle _ (fun _ => by simp) (by simp) (by simp) rfl rfl rfl rfl rfl rfl rfl rfl
  | reload =>
    obtain ⟨-,hsom⟩ := ite_none_right_eq_some.1 hste
    obtain rfl := Option.some.inj hsom
    exact .moved _ s.nextJob _ .reload ⟨rfl,rfl,rfl,rfl,rfl,rfl,rfl,(if_pos rfl).symm⟩
  | tick =>
    obtain ⟨-,hsom⟩ := ite_none_right_eq_some.1 hste
    obtain rfl := Option.some.inj hsom
    exact .moved _ s.nextJob _ .tick ⟨rfl,rfl,rfl,rfl,rfl,rfl,rfl,(if_pos rfl).symm⟩
  | read i =>
    have hrea : s.read i=some s' := hste
    unfold RouteStore.read at hrea
    split at hrea
    next hjob =>
      obtain rfl := Option.some.inj hrea
      exact .moved _ i _ (.read i hjob) (moves_put hfre hjob _)
    · cases hrea
  | stat i =>
    have hstt : s.stat i=some s' := hste
    unfold RouteStore.stat at hstt
    split at hstt
    next raw hjob =>
      obtain rfl := Option.some.inj hstt
      exact .moved _ i _ (.stat i raw hjob) (moves_put hfre hjob _)
    next hjob =>
      obtain rfl := Option.some.inj hstt
      exact .moved _ i _ (.poll i hjob) (moves_put hfre hjob _)
    · cases hstt
  | fail i =>
    have hfai : s.fail i=some s' := hste
    unfold RouteStore.fail at hfai
    split at hfai
    next hjob =>
      obtain ⟨hsta,hsom⟩ := ite_none_right_eq_some.1 hfai
      obtain rfl := Option.some.inj hsom
      exact .moved _ i _ (.failRead i hjob hsta) (moves_put hfre hjob _)
    next raw hjob =>
      obtain rfl := Option.some.inj hfai
      exact .moved _ i _ (.failStat i raw hjob) (moves_put hfre hjob _)
    next hjob =>
      obtain rfl := Option.some.inj hfai
      exact .moved _ i _ (.failPoll i hjob) (moves_put hfre hjob _)
    · cases hfai
  | finish i =>
    have hfin : s.finish parse i=some s' := hste
    unfold RouteStore.finish at hfin
    split at hfin
    next raw fingerprint hjob =>
      unfold RouteStore.load at hfin
      split at hfin
      next hsam =>
        exact .same i raw fingerprint hjob hsam (Option.some.inj hfin).symm
      next hoth =>
        split at hfin
        next routes hpar => exact .valid i raw fingerprint routes hjob hpar (Option.some.inj hfin).symm
        next hpar =>
          obtain ⟨hsta,heq⟩ := ite_none_right_eq_some.1 hfin
          exact .invalid i raw fingerprint hjob hpar hsta (Option.some.inj heq).symm
    next fingerprint hjob =>
      split at hfin
      next hne =>
        obtain rfl := Option.some.inj hfin
        exact .moved _ i _ (.differs i fingerprint hjob hne) (moves_put hfre hjob _)
      next heq =>
        obtain rfl := Option.some.inj hfin
        exact .moved _ i _ (.equal i fingerprint hjob (not_not.1 heq)) (moves_put hfre hjob _)
    · cases hfin

end

/-- The content that a job has read. -/
def Job.raw? : Job Raw Fingerprint → Option Raw
  | .stating raw => some raw
  | .stated raw _ => some raw
  | _ => none

def Job.isReload : Job Raw Fingerprint → Bool
  | .polling => false
  | .polled _ => false
  | _ => true

structure Kept (parse : Raw → Option Routes) (s : RouteStore Raw Fingerprint Routes) : Prop where
  fresh : Fresh s
  current : s.file ∈ s.history
  applied : ∀ raw routes, s.lastRaw=some raw → parse raw=some routes → s.routes=some routes
  valid : s.started=true → ∃ old ∈ s.history, ∃ routes, parse old.raw=some routes ∧ s.routes=some routes
  began : s.started=true ∨ s.lastRaw=none ∧ ∃ job, s.jobs 0=some job ∧ job.isReload=true
  read : ∀ i job raw, s.jobs i=some job → job.raw? = some raw → ∃ old ∈ s.history, old.raw=raw

structure Told (parse : Raw → Option Routes) (s : RouteStore Raw Fingerprint Routes) : Prop where
  identifies : ∀ v ∈ s.history, ∀ w ∈ s.history, v.fingerprint=w.fingerprint → v.raw=w.raw
  paired : ∀ i raw fingerprint, s.jobs i=some (.stated raw (some fingerprint)) →
    ∃ old ∈ s.history, old.raw=raw ∧ old.fingerprint=fingerprint
  known : ∀ fingerprint, s.lastFingerprint=some fingerprint →
    ∃ old ∈ s.history, old.fingerprint=fingerprint ∧ ∀ routes, parse old.raw=some routes → s.routes=some routes


variable {a : Action Raw Fingerprint} {job : Option (Job Raw Fingerprint)}

theorem Change.old (h : Change s a i job) :
    i=s.nextJob ∨ ∃ old, s.jobs i=some old := by
  cases h with
  | reload => exact Or.inl rfl
  | tick => exact Or.inl rfl
  | read i hjob => exact Or.inr ⟨_,hjob⟩
  | stat i raw hjob => exact Or.inr ⟨_,hjob⟩
  | poll i hjob => exact Or.inr ⟨_,hjob⟩
  | failRead i hjob hsta => exact Or.inr ⟨_,hjob⟩
  | failStat i raw hjob => exact Or.inr ⟨_,hjob⟩
  | failPoll i hjob => exact Or.inr ⟨_,hjob⟩
  | differs i fingerprint hjob hne => exact Or.inr ⟨_,hjob⟩
  | equal i fingerprint hjob heq => exact Or.inr ⟨_,hjob⟩

theorem Moves.fresh (hfre : Fresh s)
    (hcha : Change s a i job) (h : Moves s s' i job) : Fresh s' := by
  intro j hj
  rw [h.jobs]
  rw [h.nextJob] at hj
  have hne : j≠i := by
    rintro rfl
    split at hj
    next heq => omega
    next hne =>
      rcases hcha.old with heq | ⟨old,hold⟩
      · exact hne heq
      · rw [hfre _ hj] at hold
        cases hold
  rw [Function.update_of_ne hne]
  apply hfre
  split at hj
  · omega
  · exact hj

theorem Change.raw {job : Job Raw Fingerprint} {raw : Raw} (h : Change s a i (some job))
    (hraw : job.raw? = some raw) : raw=s.file.raw ∨ ∃ old, s.jobs i=some old ∧ old.raw? = some raw := by
  cases h with
  | reload => cases hraw
  | tick => cases hraw
  | read i hjob => exact Or.inl (Option.some.inj hraw).symm
  | stat i raw' hjob => exact Or.inr ⟨_,hjob,hraw⟩
  | poll i hjob => cases hraw
  | failStat i raw' hjob => exact Or.inr ⟨_,hjob,hraw⟩
  | differs i fingerprint hjob hne => cases hraw

theorem Change.first (h : Change s a i job)
    (hfre : Fresh s) (hsta : s.started=false) {old : Job Raw Fingerprint} (hold : s.jobs i=some old)
    (hrel : old.isReload=true) : ∃ job', job=some job' ∧ job'.isReload=true := by
  cases h with
  | reload => exact absurd rfl (hfre.ne hold)
  | tick => exact absurd rfl (hfre.ne hold)
  | read i hjob => exact ⟨_,rfl,rfl⟩
  | stat i raw hjob => exact ⟨_,rfl,rfl⟩
  | poll i hjob =>
    obtain rfl := Option.some.inj (hjob.symm.trans hold)
    cases hrel
  | failRead i hjob hsta' =>
    rw [hsta] at hsta'
    cases hsta'
  | failStat i raw hjob => exact ⟨_,rfl,rfl⟩
  | failPoll i hjob =>
    obtain rfl := Option.some.inj (hjob.symm.trans hold)
    cases hrel
  | differs i fingerprint hjob hne => exact ⟨_,rfl,rfl⟩
  | equal i fingerprint hjob heq =>
    obtain rfl := Option.some.inj (hjob.symm.trans hold)
    cases hrel

theorem Kept.moved (h : Kept parse s)
    (hcha : Change s a i job) (hmov : Moves s s' i job) : Kept parse s' where
  fresh := hmov.fresh h.fresh hcha
  current := by
    rw [hmov.file,hmov.history]
    exact h.current
  applied := by
    rw [hmov.lastRaw,hmov.routes]
    exact h.applied
  valid := by
    rw [hmov.started,hmov.history,hmov.routes]
    exact h.valid
  began := by
    rw [hmov.started,hmov.lastRaw]
    rcases h.began with hsta | ⟨hnon,old,hold,hrel⟩
    · exact Or.inl hsta
    · cases hsta : s.started with
      | true => exact Or.inl rfl
      | false =>
        refine Or.inr ⟨hnon,?_⟩
        rw [hmov.jobs]
        by_cases hi : i=0
        · subst hi
          obtain ⟨job',rfl,hjob'⟩ := hcha.first h.fresh hsta hold hrel
          exact ⟨job',Function.update_self ..,hjob'⟩
        · exact ⟨old,by rw [Function.update_of_ne (Ne.symm hi)]; exact hold,hrel⟩
  read := by
    intro j job' raw hjob hraw
    rw [hmov.jobs] at hjob
    rw [hmov.history]
    by_cases hj : j=i
    · subst hj
      rw [Function.update_self] at hjob
      subst hjob
      rcases hcha.raw hraw with rfl | ⟨old,hold,hsam⟩
      · exact ⟨s.file,h.current,rfl⟩
      · exact h.read j old raw hold hsam
    · rw [Function.update_of_ne hj] at hjob
      exact h.read j job' raw hjob hraw

theorem update_none {jobs : ℕ → Option (Job Raw Fingerprint)} {j : ℕ} {job : Job Raw Fingerprint}
    (h : Function.update jobs i none j=some job) : j≠i ∧ jobs j=some job := by
  by_cases hj : j=i
  · subst hj
    rw [Function.update_self] at h
    cases h
  · rw [Function.update_of_ne hj] at h
    exact ⟨hj,h⟩

theorem Fresh.put_none (h : Fresh s) (i : ℕ) : Fresh (s.put i none) := by
  intro j hj
  show Function.update s.jobs i none j=none
  by_cases heq : j=i
  · rw [heq,Function.update_self]
  · rw [Function.update_of_ne heq]
    exact h j hj

theorem Kept.step (h : Kept parse s) (htur : Turn parse s s' a) : Kept parse s' := by
  cases htur with
  | replaced version hs =>
    subst hs
    refine ⟨h.fresh,mem_cons_self,h.applied,?_,h.began,?_⟩
    · intro hsta
      obtain ⟨old,hmem,hold⟩ := h.valid hsta
      exact ⟨old,mem_cons_of_mem _ hmem,hold⟩
    · intro j job raw hjob hraw
      obtain ⟨old,hmem,hold⟩ := h.read j job raw hjob hraw
      exact ⟨old,mem_cons_of_mem _ hmem,hold⟩
  | idle b hrep hrel htic hfil hhis hrou hraw hfin hsta hjos hnex =>
    constructor
    · unfold Fresh
      rw [hjos,hnex]
      exact h.fresh
    · rw [hfil,hhis]
      exact h.current
    · rw [hraw,hrou]
      exact h.applied
    · rw [hsta,hhis,hrou]
      exact h.valid
    · rw [hsta,hraw,hjos]
      exact h.began
    · rw [hjos,hhis]
      exact h.read
  | moved b i job hcha hmov => exact h.moved hcha hmov
  | same i raw fingerprint hjob hsam hs =>
    subst hs
    refine ⟨h.fresh.put_none i,h.current,h.applied,h.valid,?_,?_⟩
    · rcases h.began with hsta | ⟨hnon,-⟩
      · exact Or.inl hsta
      · rw [hnon] at hsam
        cases hsam
    · exact fun j job raw' hjob' hraw => h.read j job raw' (update_none hjob').2 hraw
  | valid i raw fingerprint routes hjob hpar hs =>
    subst hs
    obtain ⟨old,hmem,hold⟩ := h.read i _ raw hjob rfl
    refine ⟨h.fresh.put_none i,h.current,?_,?_,Or.inl rfl,?_⟩
    · intro raw' routes' hraw hrou
      obtain rfl := Option.some.inj hraw
      exact hpar.symm.trans hrou
    · exact fun _ => ⟨old,hmem,routes,by rw [hold]; exact hpar,rfl⟩
    · exact fun j job raw' hjob' hraw => h.read j job raw' (update_none hjob').2 hraw
  | invalid i raw fingerprint hjob hpar hsta hs =>
    subst hs
    refine ⟨h.fresh.put_none i,h.current,?_,h.valid,Or.inl hsta,?_⟩
    · intro raw' routes' hraw hrou
      obtain rfl := Option.some.inj hraw
      rw [hpar] at hrou
      cases hrou
    · exact fun j job raw' hjob' hraw => h.read j job raw' (update_none hjob').2 hraw

theorem start_jobs (version : Version Raw Fingerprint) (i : ℕ) :
    (RouteStore.start version : RouteStore Raw Fingerprint Routes).jobs i=if i=0 then some .reading else none := by
  show Function.update (fun _ : ℕ => (none : Option (Job Raw Fingerprint))) 0 (some .reading) i=_
  rw [Function.update_apply]

theorem kept_start (version : Version Raw Fingerprint) :
    Kept parse (RouteStore.start version : RouteStore Raw Fingerprint Routes) where
  fresh := by
    intro i hi
    have hone : 1 ≤ i := hi
    rw [start_jobs,if_neg (by omega)]
  current := mem_singleton_self _
  applied := fun raw routes hraw => by cases hraw
  valid := fun hsta => by cases hsta
  began := Or.inr ⟨rfl,.reading,by rw [start_jobs,if_pos rfl],rfl⟩
  read := by
    intro i job raw hjob hraw
    rw [start_jobs] at hjob
    split at hjob
    · obtain rfl := Option.some.inj hjob
      cases hraw
    · cases hjob

section
variable [DecidableEq Raw] [DecidableEq Fingerprint]

theorem Told.step (h : Told parse s) (hkep : Kept parse s) {a : Action Raw Fingerprint} (hste : s.steady a=true)
    (htur : Turn parse s s' a) : Told parse s' := by
  cases htur with
  | replaced version hs =>
    subst hs
    have hnew : ∀ old ∈ s.history, old.fingerprint=version.fingerprint → old.raw=version.raw := by
      intro old hold heq
      have hall:=all_eq_true.1 hste old hold
      simpa [heq] using hall
    refine ⟨?_,?_,?_⟩
    · intro v hv w hw heq
      rcases mem_cons.1 hv with rfl | hvOld
      · rcases mem_cons.1 hw with rfl | hwOld
        · rfl
        · exact (hnew w hwOld heq.symm).symm
      · rcases mem_cons.1 hw with rfl | hwOld
        · exact hnew v hvOld heq
        · exact h.identifies v hvOld w hwOld heq
    · intro i raw fingerprint hjob
      obtain ⟨old,hmem,hold⟩ := h.paired i raw fingerprint hjob
      exact ⟨old,mem_cons_of_mem _ hmem,hold⟩
    · intro fingerprint hlas
      obtain ⟨old,hmem,hold⟩ := h.known fingerprint hlas
      exact ⟨old,mem_cons_of_mem _ hmem,hold⟩
  | idle b hrep hrel htic hfil hhis hrou hraw hfin hsta hjos hnex =>
    constructor
    · rw [hhis]
      exact h.identifies
    · rw [hjos,hhis]
      exact h.paired
    · rw [hfin,hhis,hrou]
      exact h.known
  | moved b i job hcha hmov =>
    refine ⟨by rw [hmov.history]; exact h.identifies,?_,?_⟩
    · intro j raw fingerprint hjob
      rw [hmov.jobs] at hjob
      rw [hmov.history]
      by_cases hj : j=i
      · subst hj
        rw [Function.update_self] at hjob
        subst hjob
        cases hcha with
        | stat _ _ hold =>
          -- the file has still what was read
          have hraw : s.file.raw=raw := by simpa [RouteStore.steady,hold] using hste
          exact ⟨s.file,hkep.current,hraw,rfl⟩
      · rw [Function.update_of_ne hj] at hjob
        exact h.paired j raw fingerprint hjob
    · rw [hmov.lastFingerprint,hmov.history,hmov.routes]
      exact h.known
  | same i raw fingerprint hjob hsam hs =>
    subst hs
    refine ⟨h.identifies,fun j raw' fingerprint' hjob' => h.paired j raw' fingerprint' (update_none hjob').2,?_⟩
    intro fingerprint' hlas
    have heq : fingerprint=some fingerprint' := hlas
    subst heq
    obtain ⟨old,hmem,hraw,hfin⟩ := h.paired i raw fingerprint' hjob
    exact ⟨old,hmem,hfin,fun routes hrou => hkep.applied raw routes hsam.symm (hraw ▸ hrou)⟩
  | valid i raw fingerprint routes hjob hpar hs =>
    subst hs
    refine ⟨h.identifies,fun j raw' fingerprint' hjob' => h.paired j raw' fingerprint' (update_none hjob').2,?_⟩
    intro fingerprint' hlas
    have heq : fingerprint=some fingerprint' := hlas
    subst heq
    obtain ⟨old,hmem,hraw,hfin⟩ := h.paired i raw fingerprint' hjob
    refine ⟨old,hmem,hfin,fun routes' hrou => ?_⟩
    rw [hraw,hpar] at hrou
    exact hrou
  | invalid i raw fingerprint hjob hpar hsta hs =>
    subst hs
    exact ⟨h.identifies,fun j raw' fingerprint' hjob' => h.paired j raw' fingerprint' (update_none hjob').2,h.known⟩

end

theorem told_start (version : Version Raw Fingerprint) :
    Told parse (RouteStore.start version : RouteStore Raw Fingerprint Routes) where
  identifies := by
    intro v hv w hw heq
    rw [mem_singleton.1 hv,mem_singleton.1 hw]
  paired := by
    intro i raw fingerprint hjob
    rw [start_jobs] at hjob
    split at hjob
    · cases hjob
    · cases hjob
  known := fun fingerprint hlas => by cases hlas

end
end Qubicl.Gateway.RouteFile
