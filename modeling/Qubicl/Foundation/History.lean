import Mathlib.Data.List.Basic

/-!
# Histories

A history is a list of events, newest first. An invariant about the events of
a run speaks of every way to split the history at one event, so a step that
adds events has to look at the two places where the split can fall.
-/

namespace Qubicl.Foundation
variable {Event : Type*} {new log after before : List Event} {e : Event}

theorem split_old (he : e ∉ new) (h : new++log=after++e::before) :
    ∃ mid, after=new++mid ∧ log=mid++e::before := by
  rcases List.append_eq_append_iff.mp h with ⟨mid,ha,hl⟩ | ⟨mid,hn,hb⟩
  · exact ⟨mid,ha,hl⟩
  · cases mid with
    | nil => exact ⟨[],by simpa using hn.symm,hb.symm⟩
    | cons x mid =>
      obtain ⟨rfl,_⟩ := List.cons.inj hb
      exact absurd (hn ▸ List.mem_append_right after List.mem_cons_self) he

theorem split_cons {x : Event} (h : x::log=after++e::before) :
    (after=[] ∧ x=e ∧ log=before) ∨ ∃ mid, after=x::mid ∧ log=mid++e::before := by
  cases after with
  | nil =>
    obtain ⟨rfl,rfl⟩ := List.cons.inj h
    exact .inl ⟨rfl,rfl,rfl⟩
  | cons y after =>
    obtain ⟨rfl,hl⟩ := List.cons.inj h
    exact .inr ⟨after,rfl,hl⟩

end Qubicl.Foundation
