import Mathlib.Data.List.Basic

/-!
# Durable programs

A durable program changes a state that survives a crash. Its outcome keeps every
state it went through, one for each durable step, so that "the program is cut
after some step" means "the state is one of the trace". A program that throws
has an outcome too: the steps it made before are not undone.

`wp` is the weakest precondition for three conditions at once: what holds at
every point where the program can be cut, what holds when it returns, and what
holds when it throws.
-/

namespace Qubicl.Foundation
open List Option

structure Outcome (S E α : Type) where
  trace : List S
  result : Except E α

def Durable (S E α : Type) := S → Outcome S E α

namespace Durable
variable {S T E α β : Type}

/-- The state in which the program stops, by returning or by throwing. -/
def final (m : Durable S E α) (s : S) : S := (m s).trace.getLastD s

def result (m : Durable S E α) (s : S) : Except E α := (m s).result

/-- The states in which the program can be cut, once it has made a step. -/
def CutAt (m : Durable S E α) (s t : S) : Prop := t ∈ (m s).trace

/-- The states the program is in, from the start to wherever it is cut or ends. -/
def Visits (m : Durable S E α) (s t : S) : Prop := t=s ∨ m.CutAt s t

protected def pure (a : α) : Durable S E α := fun _ => ⟨[],.ok a⟩

protected def bind (m : Durable S E α) (f : α → Durable S E β) : Durable S E β := fun s =>
  match m.result s with
  | .error e => ⟨(m s).trace,.error e⟩
  | .ok a => ⟨(m s).trace++(f a (m.final s)).trace,(f a (m.final s)).result⟩

instance : Monad (Durable S E) where
  pure := Durable.pure
  bind := Durable.bind

def fail (e : E) : Durable S E α := fun _ => ⟨[],.error e⟩

/-- Look at the state, which may end in a throw. -/
def reads (f : S → Except E α) : Durable S E α := fun s => ⟨[],f s⟩

/-- One durable step. -/
def write (f : S → S) : Durable S E Unit := fun s => ⟨[f s],.ok ()⟩

def ofExcept (r : Except E α) : Durable S E α := fun _ => ⟨[],r⟩

/-- `try { m } catch (e) { handler(e) }` -/
def catching (m : Durable S E α) (handler : E → Durable S E α) : Durable S E α := fun s =>
  match m.result s with
  | .ok _ => m s
  | .error e => ⟨(m s).trace++(handler e (m.final s)).trace,(handler e (m.final s)).result⟩

/-- `if (p) m` -/
def when (p : Bool) (m : Durable S E Unit) : Durable S E Unit := if p then m else pure ()

/-- `for x of xs` -/
def forEach : List α → (α → Durable S E Unit) → Durable S E Unit
  | [], _ => pure ()
  | x::rest, f => do f x; forEach rest f

/-- Several durable steps without a result, whose states are given. -/
def writes (f : S → List S) : Durable S E Unit := fun s => ⟨f s,.ok ()⟩

variable {m : Durable S E α}

theorem final_mem (s : S) : m.final s=s ∨ m.CutAt s (m.final s) := by
  unfold final CutAt
  cases h : (m s).trace with
  | nil => exact .inl rfl
  | cons t ts =>
    right
    rw [getLastD_cons]
    cases ts with
    | nil => simp
    | cons u us =>
      rw [getLastD_cons,← getLast_eq_getLastD (cons_ne_nil u us)]
      exact mem_cons_of_mem _ (getLast_mem _)

theorem getLastD_append (ts us : List S) (s : S) :
    (ts++us).getLastD s=us.getLastD (ts.getLastD s) := by
  cases us with
  | nil => simp
  | cons u us => simp [getLastD_eq_getLast?,getLast?_append]

/-- The conditions on one program: where it can be cut, where it returns, where it throws. -/
structure Condition (S E α : Type) where
  cut : S → Prop
  returns : α → S → Prop
  throws : E → S → Prop

/-- `wp m Q s`: started in `s`, the program meets the three conditions. -/
def wp (m : Durable S E α) (Q : Condition S E α) (s : S) : Prop :=
  (∀ t, m.CutAt s t → Q.cut t) ∧
  match m.result s with
  | .ok a => Q.returns a (m.final s)
  | .error e => Q.throws e (m.final s)

theorem wp_of_ok {s : S} {ts : List S} {a : α} {Q : Condition S E α}
    (h : m s=⟨ts,.ok a⟩) (hcut : ∀ t ∈ ts, Q.cut t) (hret : Q.returns a (ts.getLastD s)) :
    wp m Q s := by
  simp only [wp,CutAt,result,final,h]
  exact ⟨hcut,hret⟩

theorem wp_of_error {s : S} {ts : List S} {e : E} {Q : Condition S E α}
    (h : m s=⟨ts,.error e⟩) (hcut : ∀ t ∈ ts, Q.cut t) (hthr : Q.throws e (ts.getLastD s)) :
    wp m Q s := by
  simp only [wp,CutAt,result,final,h]
  exact ⟨hcut,hthr⟩

theorem wp_of_forall {s : S} {Q : Condition S E α} (hcut : ∀ t, Q.cut t)
    (hret : ∀ a t, Q.returns a t) (hthr : ∀ e t, Q.throws e t) : wp m Q s := by
  refine ⟨fun t _ => hcut t,?_⟩
  cases m.result s with
  | ok a => exact hret a _
  | error e => exact hthr e _

@[simp] theorem wp_pure (a : α) (Q : Condition S E α) (s : S) :
    wp (pure a : Durable S E α) Q s ↔ Q.returns a s := by
  show (∀ t, t ∈ [] → Q.cut t) ∧ Q.returns a s ↔ _
  simp

@[simp] theorem wp_fail (e : E) (Q : Condition S E α) (s : S) :
    wp (fail e) Q s ↔ Q.throws e s := by
  show (∀ t, t ∈ [] → Q.cut t) ∧ Q.throws e s ↔ _
  simp

theorem wp_reads (f : S → Except E α) (Q : Condition S E α) (s : S) :
    wp (reads f) Q s ↔ match f s with
      | .ok a => Q.returns a s
      | .error e => Q.throws e s := by
  show (∀ t, t ∈ [] → Q.cut t) ∧ _ ↔ _
  simp only [not_mem_nil,false_imp_iff,implies_true,true_and]
  rfl

@[simp] theorem wp_write (f : S → S) (Q : Condition S E Unit) (s : S) :
    wp (write f) Q s ↔ Q.cut (f s) ∧ Q.returns () (f s) := by
  show (∀ t, t ∈ [f s] → Q.cut t) ∧ Q.returns () (f s) ↔ _
  simp

@[simp] theorem wp_ofExcept_ok (a : α) (Q : Condition S E α) (s : S) :
    wp (ofExcept (.ok a)) Q s ↔ Q.returns a s := wp_pure a Q s

@[simp] theorem wp_ofExcept_error (e : E) (Q : Condition S E α) (s : S) :
    wp (ofExcept (.error e)) Q s ↔ Q.throws e s := wp_fail e Q s

theorem wp_writes (f : S → List S) (Q : Condition S E Unit) (s : S) :
    wp (writes f) Q s ↔ (∀ t ∈ f s, Q.cut t) ∧ Q.returns () ((f s).getLastD s) := Iff.rfl

@[simp] theorem wp_bind (m : Durable S E α) (f : α → Durable S E β) (Q : Condition S E β) (s : S) :
    wp (m >>= f) Q s ↔ wp m ⟨Q.cut,fun a t => wp (f a) Q t,Q.throws⟩ s := by
  show wp (Durable.bind m f) Q s ↔ _
  unfold wp CutAt final result Durable.bind
  cases h : (m s).result with
  | error e => simp [result,h]
  | ok a =>
    simp only [result,h,mem_append,getLastD_append,final]
    constructor
    · rintro ⟨hcut,hret⟩
      exact ⟨fun t ht => hcut t (.inl ht),fun t ht => hcut t (.inr ht),hret⟩
    · rintro ⟨hcut,hres,hret⟩
      exact ⟨fun t ht => ht.elim (hcut t) (hres t),hret⟩

@[simp] theorem wp_catching (m : Durable S E α) (handler : E → Durable S E α) (Q : Condition S E α) (s : S) :
    wp (m.catching handler) Q s ↔ wp m ⟨Q.cut,Q.returns,fun e t => wp (handler e) Q t⟩ s := by
  unfold wp CutAt final result catching
  cases h : (m s).result with
  | ok a => simp [result,h]
  | error e =>
    simp only [result,h,mem_append,getLastD_append,final]
    constructor
    · rintro ⟨hcut,hend⟩
      exact ⟨fun t ht => hcut t (.inl ht),fun t ht => hcut t (.inr ht),hend⟩
    · rintro ⟨hcut,hres,hend⟩
      exact ⟨fun t ht => ht.elim (hcut t) (hres t),hend⟩

@[simp] theorem wp_ite {p : Prop} [Decidable p] (m n : Durable S E α) (Q : Condition S E α) (s : S) :
    wp (if p then m else n) Q s ↔ (p → wp m Q s) ∧ (¬ p → wp n Q s) := by
  by_cases h : p <;> simp [h]

theorem wp.mono {cut cut' : S → Prop} {returns returns' : α → S → Prop}
    {throws throws' : E → S → Prop} {s : S} (h : wp m ⟨cut,returns,throws⟩ s)
    (hcut : ∀ t, cut t → cut' t) (hret : ∀ a t, returns a t → returns' a t)
    (hthr : ∀ e t, throws e t → throws' e t) : wp m ⟨cut',returns',throws'⟩ s := by
  refine ⟨fun t ht => hcut t (h.1 t ht),?_⟩
  have hres:=h.2
  cases hr : m.result s with
  | ok a => rw [hr] at hres; exact hret a _ hres
  | error e => rw [hr] at hres; exact hthr e _ hres

/- The rule for loops: `I rest` holds before the elements `rest` are handled, and
one round takes it from `x :: rest` to `rest`. -/
theorem wp_forEach {I : List α → S → Prop} {f : α → Durable S E Unit} {cut : S → Prop}
    {returns : Unit → S → Prop} {throws : E → S → Prop}
    (hste : ∀ x rest s, I (x::rest) s → wp (f x) ⟨cut,fun _ t => I rest t,throws⟩ s)
    (hdon : ∀ s, I [] s → returns () s) (xs : List α) {s : S} (h : I xs s) :
    wp (forEach xs f) ⟨cut,returns,throws⟩ s := by
  induction xs generalizing s with
  | nil => exact (wp_pure () _ s).2 (hdon s h)
  | cons x rest ih =>
    show wp (f x >>= fun _ => forEach rest f) _ s
    rw [wp_bind]
    exact (hste x rest s h).mono (fun _ h => h) (fun _ _ h => ih h) (fun _ _ h => h)

theorem wp_forEach_const {I : S → Prop} {f : α → Durable S E Unit} {cut : S → Prop}
    {returns : Unit → S → Prop} {throws : E → S → Prop} {xs : List α}
    (hste : ∀ x ∈ xs, ∀ s, I s → wp (f x) ⟨cut,fun _ t => I t,throws⟩ s)
    (hdon : ∀ s, I s → returns () s) {s : S} (h : I s) :
    wp (forEach xs f) ⟨cut,returns,throws⟩ s := by
  apply wp_forEach (I := fun rest t => (∀ x ∈ rest, x ∈ xs) ∧ I t)
  · rintro x rest t ⟨hsub,ht⟩
    exact (hste x (hsub x mem_cons_self) t ht).mono (fun _ h => h)
      (fun _ _ h => ⟨fun y hy => hsub y (mem_cons_of_mem _ hy),h⟩) (fun _ _ h => h)
  · exact fun t ht => hdon t ht.2
  · exact ⟨fun _ hx => hx,h⟩

section Runs
variable {m : Durable S E α} {C : S → Prop} {R : α → S → Prop} {X : E → S → Prop} {s : S}

theorem wp.cutAt {t : S} (h : wp m ⟨C,R,X⟩ s) (ht : m.CutAt s t) : C t := h.1 t ht

theorem wp.returned {a : α} (h : wp m ⟨C,R,X⟩ s) (hr : m.result s=.ok a) : R a (m.final s) := by
  have := h.2
  rwa [hr] at this

theorem wp.threw {e : E} (h : wp m ⟨C,R,X⟩ s) (hr : m.result s=.error e) : X e (m.final s) := by
  have := h.2
  rwa [hr] at this

/-- A program that cannot throw returns. -/
theorem wp.returns (h : wp m ⟨C,R,X⟩ s) (hthr : ∀ e t, ¬ X e t) :
    ∃ a, m.result s=.ok a ∧ R a (m.final s) := by
  cases hr : m.result s with
  | ok a => exact ⟨a,rfl,h.returned hr⟩
  | error e => exact absurd (h.threw hr) (hthr e _)

end Runs

structure Lens (S T : Type) where
  get : S → T
  set : T → S → S
  get_set : ∀ t s, get (set t s)=t
  set_get : ∀ s, set (get s) s=s
  set_set : ∀ t u s, set t (set u s)=set t s

attribute [simp] Lens.get_set Lens.set_get Lens.set_set

def Lens.comp (l : Lens S T) {U : Type} (k : Lens T U) : Lens S U where
  get s := k.get (l.get s)
  set u s := l.set (k.set u (l.get s)) s
  get_set u s := by simp
  set_get s := by simp
  set_set u v s := by simp

/-- The value at one index of a family. -/
def Lens.at {ι : Type} [DecidableEq ι] (i : ι) : Lens (ι → T) T where
  get f := f i
  set t f := Function.update f i t
  get_set t f := by simp
  set_get f := by simp
  set_set t u f := by simp

/-- Run a program on a part of the state; the rest does not change. -/
def zoom (l : Lens S T) (m : Durable T E α) : Durable S E α := fun s =>
  ⟨(m (l.get s)).trace.map fun t => l.set t s,(m (l.get s)).result⟩

theorem final_lift {m : Durable T E α} {n : Durable S E α} {g : T → S} {t : T}
    (h : n (g t)=⟨(m t).trace.map g,(m t).result⟩) : n.final (g t)=g (m.final t) := by
  unfold final
  rw [h]
  cases (m t).trace with
  | nil => rfl
  | cons u us => simp [getLastD_eq_getLast?,getLast?_cons,getLast?_map]

theorem wp_lift {m : Durable T E α} {n : Durable S E α} {g : T → S} {t : T} {Q : Condition S E α}
    (h : n (g t)=⟨(m t).trace.map g,(m t).result⟩) :
    wp n Q (g t) ↔ wp m ⟨fun u => Q.cut (g u),fun a u => Q.returns a (g u),
      fun e u => Q.throws e (g u)⟩ t := by
  unfold wp
  rw [final_lift h]
  have hcut : (∀ u, n.CutAt (g t) u → Q.cut u) ↔ ∀ u, m.CutAt t u → Q.cut (g u) := by
    simp [CutAt,h]
  have hres : n.result (g t)=m.result t := by
    unfold result
    rw [h]
  rw [hcut,hres]

@[simp] theorem wp_zoom (l : Lens S T) (m : Durable T E α) (Q : Condition S E α) (s : S) :
    wp (zoom l m) Q s ↔ wp m ⟨fun t => Q.cut (l.set t s),fun a t => Q.returns a (l.set t s),
      fun e t => Q.throws e (l.set t s)⟩ (l.get s) := by
  have hs : l.set (l.get s) s=s := l.set_get s
  have hzoo : zoom l m (l.set (l.get s) s) =
      ⟨(m (l.get s)).trace.map fun t => l.set t s,(m (l.get s)).result⟩ := by
    rw [hs]
    rfl
  have h:=wp_lift (m := m) (n := zoom l m) (g := fun t => l.set t s) (Q := Q) hzoo
  rwa [hs] at h

def Returns (m : Durable S E α) : Prop := ∀ s, ∃ a, m.result s=.ok a

theorem returns_iff {m : Durable S E α} :
    Returns m ↔ ∀ s, wp m ⟨fun _ => True,fun _ _ => True,fun _ _ => False⟩ s := by
  constructor
  · intro h s
    obtain ⟨a,ha⟩ := h s
    refine ⟨fun _ _ => trivial,?_⟩
    rw [ha]
    trivial
  · intro h s
    obtain ⟨a,ha,-⟩ := (h s).returns (fun _ _ h => h)
    exact ⟨a,ha⟩

theorem returns_pure (a : α) : Returns (pure a : Durable S E α) := fun _ => ⟨a,rfl⟩

theorem Returns.bind {m : Durable S E α} {f : α → Durable S E β} (hm : Returns m)
    (hf : ∀ a, Returns (f a)) : Returns (m >>= f) := by
  rw [returns_iff] at hm ⊢
  intro s
  rw [wp_bind]
  exact (hm s).mono (fun _ h => h) (fun a t _ => returns_iff.1 (hf a) t) (fun _ _ h => h)

theorem Returns.when {p : Bool} {m : Durable S E Unit} (h : Returns m) : Returns (Durable.when p m) := by
  cases p
  · exact returns_pure ()
  · exact h

theorem returns_forEach {f : α → Durable S E Unit} {xs : List α} (h : ∀ x ∈ xs, Returns (f x)) :
    Returns (forEach xs f) := by
  rw [returns_iff]
  intro s
  exact wp_forEach_const (I := fun _ => True) (fun x hx t _ => returns_iff.1 (h x hx) t)
    (fun _ _ => trivial) trivial

theorem Returns.zoom {l : Lens S T} {m : Durable T E α} (h : Returns m) : Returns (Durable.zoom l m) :=
  fun s => h (l.get s)

/-- Every step of `m` keeps `P`, wherever the program is cut and however it ends. -/
def Keeps (P : S → Prop) (m : Durable S E α) : Prop :=
  ∀ s, P s → wp m ⟨P,fun _ t => P t,fun _ t => P t⟩ s

variable {P : S → Prop}

theorem Keeps.visits {m : Durable S E α} (h : Keeps P m) {s t : S} (hs : P s)
    (ht : m.Visits s t) : P t := by
  rcases ht with rfl | hcut
  · exact hs
  · exact (h s hs).cutAt hcut

theorem keeps_pure (a : α) : Keeps P (pure a : Durable S E α) :=
  fun s h => (wp_pure a _ s).2 h

theorem keeps_reads (f : S → Except E α) : Keeps P (reads f) := by
  intro s h
  rw [wp_reads]
  split <;> exact h

theorem keeps_ofExcept (r : Except E α) : Keeps P (ofExcept r : Durable S E α) :=
  keeps_reads fun _ => r

theorem keeps_write {f : S → S} (h : ∀ s, P s → P (f s)) :
    Keeps P (write f : Durable S E Unit) :=
  fun s hs => (wp_write f _ s).2 ⟨h s hs,h s hs⟩

theorem Keeps.bind {m : Durable S E α} {f : α → Durable S E β} (hm : Keeps P m)
    (hf : ∀ a, Keeps P (f a)) : Keeps P (m >>= f) := by
  intro s h
  rw [wp_bind]
  exact (hm s h).mono (fun _ h => h) (fun a t h => hf a t h) (fun _ _ h => h)

theorem Keeps.ite {p : Prop} [Decidable p] {m n : Durable S E α} (hm : p → Keeps P m)
    (hn : ¬ p → Keeps P n) : Keeps P (if p then m else n) := by
  intro s h
  rw [wp_ite]
  exact ⟨fun hp => hm hp s h,fun hp => hn hp s h⟩

theorem Keeps.when {p : Bool} {m : Durable S E Unit} (h : Keeps P m) :
    Keeps P (Durable.when p m) := Keeps.ite (fun _ => h) (fun _ => keeps_pure ())

theorem keeps_forEach {f : α → Durable S E Unit} {xs : List α}
    (h : ∀ x ∈ xs, Keeps P (f x)) : Keeps P (forEach xs f) := fun _ hs =>
  wp_forEach_const (I := P) h (fun _ h => h) hs

theorem keeps_zoom_of_frame {l : Lens S T} {m : Durable T E α}
    (h : ∀ s t, P s → P (l.set t s)) : Keeps P (Durable.zoom l m) := by
  intro s hs
  rw [wp_zoom]
  exact wp_of_forall (fun t => h s t hs) (fun _ t => h s t hs) (fun _ t => h s t hs)

theorem Keeps.part {l : Lens S T} {m : Durable T E α} {rest : S → Prop} {part : T → Prop}
    (hres : ∀ s t, rest s → rest (l.set t s)) (h : Keeps part m) :
    Keeps (fun s => rest s ∧ part (l.get s)) (Durable.zoom l m) := by
  intro s hs
  rw [wp_zoom]
  have hset : ∀ t, part t → rest (l.set t s) ∧ part (l.get (l.set t s)) := by
    intro t ht
    rw [l.get_set]
    exact ⟨hres s t hs.1,ht⟩
  exact (h (l.get s) hs.2).mono hset (fun _ => hset) (fun _ => hset)

theorem Keeps.get {l : Lens S T} {m : Durable T E α} {P : T → Prop} (h : Keeps P m) :
    Keeps (fun s => P (l.get s)) (Durable.zoom l m) := by
  intro s hs
  rw [wp_zoom]
  have hset : ∀ t, P t → P (l.get (l.set t s)) := by
    intro t ht
    rwa [l.get_set]
  exact (h (l.get s) hs).mono hset (fun _ => hset) (fun _ => hset)

theorem wp.everywhere {m : Durable S E α} {C : S → Prop} {R : α → S → Prop} {X : E → S → Prop} {s : S}
    (h : Durable.wp m ⟨C,R,X⟩ s) (hs : C s) : Durable.wp m ⟨C,fun _ t => C t,fun _ t => C t⟩ s := by
  have hend : C (m.final s) := by
    rcases final_mem (m := m) s with heq | hcut
    · rw [heq]
      exact hs
    · exact h.1 _ hcut
  refine ⟨h.1,?_⟩
  cases m.result s with
  | ok a => exact hend
  | error e => exact hend

/-- `m` does what `n` does, or it throws on the way. -/
def Within (m n : Durable S E α) : Prop :=
  ∀ s, m s=n s ∨ (∃ e, m.result s=.error e) ∧ (m s).trace <+: (n s).trace

theorem Within.refl (m : Durable S E α) : Within m m := fun _ => .inl rfl

theorem Within.bind {m n : Durable S E α} {f g : α → Durable S E β} (h : Within m n) (hf : ∀ a, Within (f a) (g a)) :
    Within (m >>= f) (n >>= g) := by
  intro s
  show Durable.bind m f s=Durable.bind n g s ∨ (∃ e, (Durable.bind m f s).result=.error e) ∧
    (Durable.bind m f s).trace <+: (Durable.bind n g s).trace
  rcases h s with heq | ⟨⟨e,herr⟩,hear⟩
  · unfold Durable.bind result final
    rw [heq]
    cases (n s).result with
    | error e => exact .inl rfl
    | ok a =>
      rcases hf a ((n s).trace.getLastD s) with heq' | ⟨⟨e,herr⟩,hear⟩
      · left
        dsimp only
        rw [heq']
      · exact .inr ⟨⟨e,herr⟩,(prefix_append_right_inj _).2 hear⟩
  · right
    unfold Durable.bind
    rw [herr]
    refine ⟨⟨e,rfl⟩,hear.trans ?_⟩
    cases n.result s with
    | error e => exact prefix_rfl
    | ok a => exact prefix_append _ _

theorem Within.zoom {m n : Durable T E α} (h : Within m n) (l : Lens S T) : Within (Durable.zoom l m) (Durable.zoom l n) := by
  intro s
  rcases h (l.get s) with heq | ⟨⟨e,herr⟩,hear⟩
  · left
    unfold Durable.zoom
    rw [heq]
  · exact .inr ⟨⟨e,herr⟩,hear.map _⟩

/- What is known of `n`, but for the end of a throw. -/
theorem Within.wp {m n : Durable S E α} {C : S → Prop} {R : α → S → Prop} {X : E → S → Prop} {s : S} (h : Within m n)
    (hn : Durable.wp n ⟨C,R,X⟩ s) : Durable.wp m ⟨C,R,fun _ _ => True⟩ s := by
  rcases h s with heq | ⟨⟨e,herr⟩,hear⟩
  · unfold Durable.wp CutAt result final
    rw [heq]
    refine ⟨hn.1,?_⟩
    cases hres : (n s).result with
    | error e => trivial
    | ok a => exact hn.returned hres
  · refine ⟨fun t ht => hn.1 t (hear.subset ht),?_⟩
    rw [herr]
    trivial

/-- `m`, with what it throws forgotten. -/
def forgiving (m : Durable S E Unit) : Durable S E Unit := m.catching fun _ => pure ()

theorem within_forgiving (m : Durable S E Unit) : Within m (forgiving m) := by
  intro s
  unfold forgiving catching
  cases hres : m.result s with
  | ok u => exact .inl rfl
  | error e => exact .inr ⟨⟨e,rfl⟩, prefix_append _ _⟩

theorem returns_forgiving (m : Durable S E Unit) : Returns (forgiving m) := by
  apply returns_iff.2
  intro s
  apply (wp_catching _ _ _ s).2
  exact wp_of_forall (fun _ => trivial) (fun _ _ => trivial) fun _ t => (wp_pure () _ t).2 trivial

/-- A step of a program fails once so many durable steps have been made. -/
structure StepFailure (E : Type) where
  steps : ℕ
  error : E

/-- Whether one of the steps fails, and where: a step that fails has had its effect or not. -/
def failing (failure : Option (StepFailure E)) (m : Durable S E α) : Durable S E α := fun s =>
  match failure with
  | none => m s
  | some failure => ⟨(m s).trace.take failure.steps,.error failure.error⟩

/-- `try { m } catch (error) { cleanUp; throw error }` -/
def rescued (m cleanUp : Durable S E Unit) : Durable S E Unit :=
  m.catching fun error => do
    cleanUp
    fail error

theorem wp_failing {m : Durable S E α} {C : S → Prop} {R : α → S → Prop} {X : E → S → Prop} {s : S}
    (h : Durable.wp m ⟨C,R,X⟩ s) (hs : C s) (hthr : ∀ e t, X e t → C t) (failure : Option (StepFailure E)) :
    Durable.wp (failing failure m) ⟨C,R,fun _ => C⟩ s := by
  cases failure with
  | none => exact h.mono (fun _ h => h) (fun _ _ h => h) hthr
  | some failure =>
    have hste : ∀ t ∈ (m s).trace.take failure.steps, C t := fun t ht => h.1 t (mem_of_mem_take ht)
    refine wp_of_error rfl hste ?_
    rcases eq_nil_or_concat ((m s).trace.take failure.steps) with hnon | ⟨before,last,hlas⟩
    · rw [hnon]
      exact hs
    · rw [hlas,concat_eq_append,getLastD_concat]
      apply hste
      rw [hlas,concat_eq_append]
      exact mem_concat_self

theorem wp_rescued {m cleanUp : Durable S E Unit} {C : S → Prop} {R : Unit → S → Prop} {X : E → S → Prop} {s : S} :
    Durable.wp (rescued m cleanUp) ⟨C,R,X⟩ s ↔
      Durable.wp m ⟨C,R,fun e t => Durable.wp cleanUp ⟨C,fun _ u => X e u,X⟩ t⟩ s := by
  unfold rescued
  rw [wp_catching]
  simp only [wp_bind,wp_fail]

theorem keeps_writes {f : S → List S} (h : ∀ s, P s → ∀ t ∈ f s, P t) :
    Keeps P (writes f : Durable S E Unit) := by
  intro s hs
  have hwri : Durable.wp (writes f : Durable S E Unit) ⟨P,fun _ _ => True,fun _ _ => True⟩ s :=
    (wp_writes f _ s).2 ⟨h s hs,trivial⟩
  exact hwri.everywhere hs

theorem Keeps.rescued {m cleanUp : Durable S E Unit} (hm : Keeps P m) (hcle : Keeps P cleanUp) :
    Keeps P (Durable.rescued m cleanUp) := by
  intro s hs
  rw [wp_rescued]
  exact (hm s hs).mono (fun _ h => h) (fun _ _ h => h) fun _ t ht => hcle t ht

/-- The state after so many of the steps of a program. -/
def after (m : Durable S E α) (steps : ℕ) (s : S) : S := ((m s).trace.take steps).getLastD s

theorem after_visits {m : Durable S E α} (steps : ℕ) (s : S) : m.Visits s (m.after steps s) := by
  unfold after
  rcases eq_nil_or_concat ((m s).trace.take steps) with hnon | ⟨before,last,hlas⟩
  · rw [hnon]
    exact Or.inl rfl
  · right
    have hmem : last ∈ (m s).trace.take steps := by
      rw [hlas,concat_eq_append]
      exact mem_concat_self
    rw [hlas,concat_eq_append,getLastD_concat]
    exact mem_of_mem_take hmem

/-- `m` converges to `target` of what `view` shows of the state: no step changes where
a run from there ends, a return is that end, and a throw means that there is none. -/
def Converges (view : S → T) (m : Durable S E Unit) (target : T → Option T) : Prop :=
  ∀ s, wp m ⟨fun t => target (view t)=target (view s),fun _ t => target (view s)=some (view t),
    fun _ _ => target (view s)=none⟩ s

theorem Converges.idem {view : S → T} {m : Durable S E Unit} {target : T → Option T}
    (h : Converges view m target) {s : S} {t : T} (ht : target (view s)=some t) :
    target t=some t := by
  have hwp:=h s
  have hres:=hwp.2
  cases hr : m.result s with
  | error e =>
    rw [hr] at hres
    simp [ht] at hres
  | ok u =>
    rw [hr,ht] at hres
    have heq : t=view (m.final s) := Option.some.inj hres
    rcases final_mem (m := m) s with hf | hf
    · rw [heq,hf]
      rw [heq,hf] at ht
      exact ht
    · rw [heq]
      exact (hwp.1 _ hf).trans (ht.trans (congrArg some heq))

theorem Converges.seq {view : S → T} {m n : Durable S E Unit} {f g : T → Option T}
    (hm : Converges view m f) (hn : Converges view n g)
    (hf : Keeps (fun s => f (view s)=some (view s)) n) :
    Converges view (m >>= fun _ => n) (fun s => (f s).bind g) := by
  intro s
  rw [wp_bind]
  apply (hm s).mono
  · intro t ht
    simp only [ht]
  · intro _ t ht
    have hkee:=hf t (hm.idem ht)
    have hwp:=hn t
    refine ⟨fun u hu => ?_,?_⟩
    · simp only [hkee.cutAt hu,ht,bind_some]
      exact hwp.cutAt hu
    · simp only [ht,bind_some]
      exact hwp.2
  · intro _ _ hnon
    simp only [hnon,bind_none]

/-- The same for the whole state. -/
def HeadsFor (m : Durable S E Unit) (target : S → Option S) : Prop :=
  ∀ s, wp m ⟨fun t => target t=target s,fun _ t => target s=some t,
    fun _ _ => target s=none⟩ s

variable {target : S → Option S}

theorem headsFor_of_step {m : Durable S E Unit}
    (hste : ∀ s t, target s=some t →
      target t=some t ∧ (m s=⟨[t],.ok ()⟩ ∨ t=s ∧ m s=⟨[],.ok ()⟩))
    (hthr : ∀ s, target s=none → ∃ e, m s=⟨[],.error e⟩) : HeadsFor m target := by
  intro s
  cases ht : target s with
  | none =>
    obtain ⟨e,he⟩ := hthr s ht
    exact wp_of_error he (by simp) rfl
  | some t =>
    obtain ⟨hide,h | ⟨rfl,h⟩⟩ := hste s t ht
    · refine wp_of_ok h ?_ rfl
      intro u hu
      rw [mem_singleton.1 hu]
      exact hide
    · exact wp_of_ok h (by simp) rfl

theorem HeadsFor.idem {m : Durable S E Unit} (h : HeadsFor m target)
    {s t : S} (ht : target s=some t) : target t=some t :=
  @Converges.idem S S E (fun s => s) m target h s t ht

theorem HeadsFor.wp {m : Durable S E Unit} (h : HeadsFor m target)
    {s t : S} (ht : target s=some t) :
    wp m ⟨fun u => target u=some t,fun _ u => u=t,fun _ _ => False⟩ s := by
  apply (h s).mono
  · exact fun u hu => hu.trans ht
  · exact fun _ u hu => Option.some.inj (hu.symm.trans ht)
  · intro _ _ hnon
    rw [ht] at hnon
    simp at hnon

theorem HeadsFor.congr {m : Durable S E Unit} {f g : S → Option S} (h : HeadsFor m f)
    (heq : ∀ s, f s=g s) : HeadsFor m g := by
  have : f=g := funext heq
  rwa [← this]

theorem HeadsFor.seq {m n : Durable S E Unit} {f g : S → Option S} (hm : HeadsFor m f)
    (hn : HeadsFor n g) (hf : Keeps (fun s => f s=some s) n) :
    HeadsFor (m >>= fun _ => n) (fun s => (f s).bind g) :=
  @Converges.seq S S E (fun s => s) m n f g hm hn hf

theorem HeadsFor.zoom {m : Durable T E Unit} {target : T → Option T} (h : HeadsFor m target)
    (l : Lens S T) :
    HeadsFor (Durable.zoom l m) (fun s => (target (l.get s)).map fun t => l.set t s) := by
  intro s
  rw [wp_zoom]
  apply (h (l.get s)).mono
  · intro t ht
    simp [ht]
  · intro _ t ht
    simp [ht]
  · intro _ _ hnon
    simp [hnon]

theorem HeadsFor.keeps_end {m : Durable S E Unit} (h : HeadsFor m target) (hkee : Keeps P m) {s t : S} (ht : target s=some t) (hs : P s) : P t := by
  obtain ⟨_,hr,hfin⟩ := (h.wp ht).returns (fun _ _ h => h)
  rw [← hfin]
  exact (hkee s hs).returned hr

theorem wp.and {m : Durable S E α} {C C' : S → Prop} {R R' : α → S → Prop} {X X' : E → S → Prop} {s : S}
    (h : Durable.wp m ⟨C,R,X⟩ s) (h' : Durable.wp m ⟨C',R',X'⟩ s) :
    Durable.wp m ⟨fun t => C t ∧ C' t,fun a t => R a t ∧ R' a t,fun e t => X e t ∧ X' e t⟩ s := by
  refine ⟨fun t ht => ⟨h.cutAt ht,h'.cutAt ht⟩,?_⟩
  have hres:=h.2
  have hres':=h'.2
  cases hr : m.result s with
  | ok a =>
    rw [hr] at hres hres'
    exact ⟨hres,hres'⟩
  | error e =>
    rw [hr] at hres hres'
    exact ⟨hres,hres'⟩

theorem HeadsFor.wp_of_eq {m : Durable S E Unit} {f g : S → Option S} {Q : S → Prop} (h : HeadsFor m f)
    (hkee : Keeps Q m) (heq : ∀ s, Q s → g s=f s) {s : S} (hs : Q s) :
    Durable.wp m ⟨fun t => g t=g s,fun _ t => g s=some t,fun _ _ => g s=none⟩ s := by
  apply ((h s).and (hkee s hs)).mono
  · intro t ht
    rw [heq t ht.2,heq s hs,ht.1]
  · intro _ t ht
    rw [heq s hs,ht.1]
  · intro _ _ ht
    rw [heq s hs,ht.1]

/-- A look at the state: it ends where it starts, or throws. -/
theorem headsFor_reads (f : S → Except E Unit) :
    HeadsFor (reads f) (fun s => if (f s).toBool then some s else none) := by
  apply headsFor_of_step
  · intro s t h
    cases hf : f s with
    | error e => simp [hf,Except.toBool] at h
    | ok u =>
      have hst : s=t := by simpa [hf,Except.toBool] using h
      subst hst
      exact ⟨h,.inr ⟨rfl,by simp [reads,hf]⟩⟩
  · intro s h
    cases hf : f s with
    | error e => exact ⟨e,by simp [reads,hf]⟩
    | ok u => simp [hf,Except.toBool] at h

section Family
variable {ι : Type} [DecidableEq ι] {key : α → ι} {target : α → T → Option T}

def familyTarget (key : α → ι) (target : α → T → Option T) : List α → (ι → T) → Option (ι → T)
  | [], g => some g
  | x::rest, g =>
    (target x (g (key x))).bind fun t => familyTarget key target rest (Function.update g (key x) t)

theorem familyTarget_eq_some {xs : List α} (hnod : (xs.map key).Nodup) {g g' : ι → T} :
    familyTarget key target xs g=some g' ↔
      (∀ x ∈ xs, target x (g (key x))=some (g' (key x))) ∧ ∀ i ∉ xs.map key, g' i=g i := by
  induction xs generalizing g with
  | nil =>
    simp only [familyTarget,Option.some.injEq,map_nil,not_mem_nil,false_imp_iff,
      implies_true,true_and,not_false_eq_true,true_imp_iff]
    exact ⟨fun h i => by rw [h],fun h => funext fun i => (h i).symm⟩
  | cons x rest ih =>
    obtain ⟨hfre,hres⟩ := nodup_cons.1 hnod
    have hoth : ∀ y ∈ rest, key y≠key x := by
      intro y hy heq
      exact hfre (mem_map.2 ⟨y,hy,heq⟩)
    simp only [familyTarget,bind_eq_some_iff,ih hres,forall_mem_cons]
    simp only [map_cons,mem_cons,not_or]
    constructor
    · rintro ⟨t,ht,hmem,hout⟩
      have hx : g' (key x)=t := by simpa using hout (key x) hfre
      refine ⟨⟨by rw [ht,hx],fun y hy => ?_⟩,fun i hi => ?_⟩
      · simpa [hoth y hy] using hmem y hy
      · simpa [hi.1] using hout i hi.2
    · rintro ⟨⟨hx,hmem⟩,hout⟩
      refine ⟨g' (key x),hx,fun y hy => ?_,fun i hi => ?_⟩
      · simpa [hoth y hy] using hmem y hy
      · by_cases hix : i=key x
        · simp [hix]
        · simpa [hix] using hout i ⟨hix,hi⟩

theorem forEach_headsFor {f : α → Durable T E Unit} {xs : List α} (hnod : (xs.map key).Nodup)
    (h : ∀ x ∈ xs, HeadsFor (f x) (target x)) :
    HeadsFor (forEach xs fun x => Durable.zoom (Lens.at (key x)) (f x)) (familyTarget key target xs) := by
  induction xs with
  | nil => exact fun g => (wp_pure () _ g).2 rfl
  | cons x rest ih =>
    obtain ⟨hfre,hres⟩ := nodup_cons.1 hnod
    have hseq:=((h x mem_cons_self).zoom (Lens.at (key x))).seq
      (ih hres fun y hy => h y (mem_cons_of_mem _ hy)) ?_
    · apply hseq.congr
      intro g
      cases ht : target x (g (key x)) <;> simp [familyTarget,Lens.at,ht]
    · -- the rest of the loop is about other members
      apply keeps_forEach
      intro y hy
      apply keeps_zoom_of_frame
      intro g t hg
      have hne : key x≠key y := fun heq => hfre (mem_map.2 ⟨y,hy,heq.symm⟩)
      obtain ⟨u,hu,hset⟩ := map_eq_some_iff.1 hg
      have hgx : u=g (key x) := by rw [← hset]; simp [Lens.at]
      subst hgx
      simp only [Lens.at] at hu ⊢
      simp [hne,hu]

end Family

theorem HeadsFor.converges {m : Durable T E Unit} {target : T → Option T} (h : HeadsFor m target)
    (l : Lens S T) : Converges l.get (Durable.zoom l m) target := by
  intro s
  rw [wp_zoom]
  apply (h (l.get s)).mono
  · intro t ht
    simp only [l.get_set,ht]
  · intro _ t ht
    simp only [l.get_set,ht]
  · exact fun _ _ hnon => hnon

theorem converges_some {view : S → T} {m : Durable S E Unit} (hkee : ∀ t, Keeps (fun s => view s=t) m)
    (hret : Returns m) : Converges view m some := by
  intro s
  have hwp:=hkee (view s) s rfl
  obtain ⟨u,hu⟩ := hret s
  refine ⟨fun t ht => congrArg some (hwp.cutAt ht),?_⟩
  rw [hu]
  exact congrArg some (hwp.returned hu).symm

end Durable
end Qubicl.Foundation
