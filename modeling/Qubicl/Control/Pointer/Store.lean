import Mathlib.Data.Rat.Floor
import Qubicl.Foundation.Json

/-!
# The cursor that viewers see (packages/control/src/viewer-actions.ts)

An intent is shown before it is carried out, a confirmation keeps it and a cancellation brings the last kept one back.
-/

namespace Qubicl.Control.Pointer
open Foundation

def DISPLAY_WIDTH : ℤ := 1440
def DISPLAY_HEIGHT : ℤ := 900
def MAX_EVENTS : ℕ := 32

/- A number of the language; both zeros are one. -/
inductive NumberValue
  | finite (value : ℚ)
  | infinity (negative : Bool)
  | nan
deriving DecidableEq

/-- `Number.isSafeInteger`, with the integer. -/
def NumberValue.safeInteger? : NumberValue → Option ℤ
  | .finite value => if Json.SafeInteger value then some value.num else none
  | _ => none

def NumberValue.negative : NumberValue → Bool
  | .finite value => value<0
  | .infinity negative => negative
  | .nan => false

inductive ViewerPointerKind
  | click | double_click | right_click | drag | scroll | move
deriving DecidableEq

structure ViewerPointerAction where
  type : String
  x : Option NumberValue := none
  y : Option NumberValue := none
  button : Option NumberValue := none
  toX : Option NumberValue := none
  toY : Option NumberValue := none
  deltaY : Option NumberValue := none

inductive ViewerPointerUpdate
  | intent (actionId : String) (generation : ℕ) (action : ViewerPointerAction)
  | confirm (actionId : String) (generation : ℕ)
  | cancel (actionId : String) (generation : ℕ)

structure ViewerPointerState where
  kind : ViewerPointerKind
  x : ℤ
  y : ℤ
  button : ℤ
  occurredAt : ℤ
deriving DecidableEq

inductive ViewerPointerEvent
  | «show» (state : ViewerPointerState) (sequence : ℕ) (pulse : Bool)
  | hide (sequence : ℕ) (occurredAt : ℤ)
deriving DecidableEq

def ViewerPointerEvent.sequence : ViewerPointerEvent → ℕ
  | .show _ sequence _ => sequence
  | .hide sequence _ => sequence

structure ViewerPointerEvents where
  events : List ViewerPointerEvent
  latestSequence : ℕ
  current : Option ViewerPointerState
  display : ℤ × ℤ
deriving DecidableEq

structure Candidate where
  kind : ViewerPointerKind
  x : ℤ
  y : ℤ
  button : ℤ
  order : ℕ
deriving DecidableEq

def Candidate.state (candidate : Candidate) (now : ℤ) : ViewerPointerState where
  kind := candidate.kind
  x := candidate.x
  y := candidate.y
  button := candidate.button
  occurredAt := now

structure Waiter where
  call : ℕ
  sequence : ℕ
deriving DecidableEq

/- `resolved` are the calls whose promise is settled and that have still to go on. -/
structure ViewerPointerStore where
  sequence : ℕ := 0
  order : ℕ := 0
  events : List ViewerPointerEvent := []
  pending : List (String × Candidate) := []
  confirmed : Option Candidate := none
  displayed : Option Candidate := none
  current : Option ViewerPointerState := none
  waiters : List Waiter := []
  resolved : List Waiter := []

structure Point where
  kind : ViewerPointerKind
  x : ℚ
  y : ℚ
  button : ℤ

def validPoint (x y : Option NumberValue) (kind : ViewerPointerKind) (button : NumberValue) : Option Point :=
  match x, y, button.safeInteger? with
  | some (.finite x), some (.finite y), some button =>
    if button<0 ∨ button > 8 then none else some { kind, x, y, button }
  | _, _, _ => none

def pointerPoint (action : ViewerPointerAction) : Option Point :=
  match action.type with
  | "click" => validPoint action.x action.y .click (action.button.getD (.finite 1))
  | "double_click" => validPoint action.x action.y .double_click (action.button.getD (.finite 1))
  | "move" => validPoint action.x action.y .move (action.button.getD (.finite 1))
  | "right_click" => validPoint action.x action.y .right_click (.finite 3)
  | "drag" => validPoint action.toX action.toY .drag (action.button.getD (.finite 1))
  | "scroll" =>
    validPoint action.x action.y .scroll (.finite (if (action.deltaY.getD (.finite 0)).negative then 4 else 5))
  | _ => none

/-- `/^[A-Za-z0-9_-]{16,128}$/` -/
def validActionId (value : String) : Bool :=
  16≤value.length ∧ value.length≤128 ∧ value.toList.all fun c => c.isAlphanum || c = '_' || c = '-'

/-- `Math.round` takes a half upwards. -/
def clamp (value : ℚ) (minimum maximum : ℤ) : ℤ := max minimum (min maximum ⌊value+1 / 2⌋)

def Point.candidate (point : Point) (order : ℕ) : Candidate where
  kind := point.kind
  x := clamp point.x 0 (DISPLAY_WIDTH - 1)
  y := clamp point.y 0 (DISPLAY_HEIGHT - 1)
  button := point.button
  order := order

def ViewerPointerKind.pulses (kind : ViewerPointerKind) : Bool :=
  kind ∈ [.click,.double_click,.right_click,.drag]

namespace ViewerPointerStore
variable (store : ViewerPointerStore)

def emit (event : ViewerPointerEvent) : ViewerPointerStore :=
  let events:=store.events++[event]
  { store with
    events := events.drop (events.length - MAX_EVENTS)
    waiters := []
    resolved := store.resolved++store.waiters }

def «show» (candidate : Candidate) (pulse : Bool) (now : ℤ) : ViewerPointerStore × ViewerPointerEvent :=
  let event:=ViewerPointerEvent.show (candidate.state now) (store.sequence+1) pulse
  ({ store with
      displayed := some candidate
      current := some (candidate.state now)
      sequence := store.sequence+1 }.emit event,event)

/-- The loop of `reconcile`: a pending one is taken before the one found so far where its order is greater. -/
def next : Option Candidate :=
  store.pending.foldl
    (fun next entry =>
      match next with
      | none => some entry.2
      | some found => if entry.2.order > found.order then some entry.2 else some found)
    store.confirmed

def reconcile (now : ℤ) : ViewerPointerStore × Option ViewerPointerEvent :=
  if store.next.map Candidate.order=store.displayed.map Candidate.order then (store,none)
  else
    match store.next with
    | some next =>
      let shown:=store.show next false now
      (shown.1,some shown.2)
    | none =>
      if store.displayed.isNone then (store,none)
      else
        let event:=ViewerPointerEvent.hide (store.sequence+1) now
        ({ store with displayed := none, current := none, sequence := store.sequence+1 }.emit event,some event)

/-- The identifier and the event of what was begun. -/
def begin (action : ViewerPointerAction) (actionId : String) (now : ℤ) :
    ViewerPointerStore × Option (String × ViewerPointerEvent) :=
  match pointerPoint action with
  | none => (store,none)
  | some point =>
    if !validActionId actionId || (store.pending.lookup actionId).isSome then (store,none)
    else
      let candidate:=point.candidate (store.order+1)
      let begun:={ store with order := store.order+1, pending := mapSet actionId candidate store.pending }
      let shown:=begun.show candidate candidate.kind.pulses now
      (shown.1,some (actionId,shown.2))

def confirm (actionId : String) (now : ℤ) : ViewerPointerStore × Bool × Option ViewerPointerEvent :=
  match store.pending.lookup actionId with
  | none => (store,false,none)
  | some candidate =>
    let kept :=
      match store.confirmed with
      | none => some candidate
      | some confirmed => if candidate.order ≥ confirmed.order then some candidate else some confirmed
    let after:={ store with pending := mapDelete actionId store.pending, confirmed := kept }.reconcile now
    (after.1,true,after.2)

def cancel (actionId : String) (now : ℤ) : ViewerPointerStore × Bool × Option ViewerPointerEvent :=
  if (store.pending.lookup actionId).isNone then (store,false,none)
  else
    let after:={ store with pending := mapDelete actionId store.pending }.reconcile now
    (after.1,true,after.2)

def apply (update : ViewerPointerUpdate) (now : ℤ) : ViewerPointerStore × Bool × Option ViewerPointerEvent :=
  match update with
  | .intent actionId _ action =>
    let started:=store.begin action actionId now
    (started.1,started.2.isSome,started.2.map Prod.snd)
  | .confirm actionId _ => store.confirm actionId now
  | .cancel actionId _ => store.cancel actionId now

def clear (now : ℤ) : ViewerPointerStore × Option ViewerPointerEvent :=
  let hadState:=store.displayed.isSome || store.confirmed.isSome || !store.pending.isEmpty
  let cleared:={ store with pending := [], confirmed := none, displayed := none, current := none }
  if !hadState then (cleared,none)
  else
    let event:=ViewerPointerEvent.hide (cleared.sequence+1) now
    ({ cleared with sequence := cleared.sequence+1 }.emit event,some event)

/-- The number that both queries start from. -/
def requested (after : NumberValue) : ℕ :=
  match after.safeInteger? with
  | some sequence => sequence.toNat
  | none => 0

def since (after : ℕ) : ViewerPointerEvents where
  events := store.events.filter fun event => event.sequence > after
  latestSequence := store.sequence
  current := store.current
  display := (DISPLAY_WIDTH,DISPLAY_HEIGHT)

/-- The start of `waitSince`: it answers, or the call waits. -/
def waitSince (after : NumberValue) (call : ℕ) : ViewerPointerStore × Option ViewerPointerEvents :=
  if requested after≠store.sequence then (store,some (store.since (requested after)))
  else ({ store with waiters := store.waiters++[{ call, sequence := requested after }] },none)

/-- The timer of a waiting call. -/
def timeout (waiter : Waiter) : ViewerPointerStore :=
  { store with waiters := store.waiters.erase waiter, resolved := store.resolved++[waiter] }

end ViewerPointerStore
end Qubicl.Control.Pointer
