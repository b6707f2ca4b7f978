import LibWorkflow.Engine.Samples
import LibWorkflow.Lib.Dag

/-!
# The workflow graph

The bindings between ordinary actions, those with a non-negative id, are the edges of the workflow graph.
`performedIds` is the walk a session makes over it.
-/

namespace LibWorkflow

open Ordered

namespace StateMachine

variable {ω : Type} {m : StateMachine ω} {w : World ω}

def Edge (m : StateMachine ω) (a b : ℤ) : Prop := 0 ≤ a ∧ 0 ≤ b ∧ m.Leads a b

def Acyclic (m : StateMachine ω) : Prop := Dag.Acyclic m.Edge

/-- A path of bindings between ordinary actions, maybe of no binding. -/
abbrev Reaches (m : StateMachine ω) : ℤ → ℤ → Prop := Relation.ReflTransGen m.Edge

theorem exists_entry_of_leads {a b : ℤ} (h : m.Leads a b) :
    ∃ entry ∈ m.outputs.entries, entry.1 = a ∧ ∃ output ∈ entry.2, output.toActionId = b := by
  obtain ⟨output, hmem, hto⟩ := h
  unfold bindings at hmem
  cases hfind : m.outputs.find? a with
  | none =>
    rw [hfind] at hmem
    cases hmem
  | some outputs =>
    rw [hfind] at hmem
    exact ⟨(a, outputs), OrdMap.find?_eq_some_iff.mp hfind, rfl, output, hmem, hto⟩

theorem acyclic_of_rank (rank : ℤ → ℕ) (h : ∀ entry ∈ m.outputs.entries, ∀ output ∈ entry.2,
    0 ≤ entry.1 → 0 ≤ output.toActionId → rank entry.1 < rank output.toActionId) : m.Acyclic := by
  have hedge : ∀ a b, m.Edge a b → rank a < rank b := by
    rintro a b ⟨ha, hb, hleads⟩
    obtain ⟨entry, hentry, rfl, output, houtput, rfl⟩ := exists_entry_of_leads hleads
    exact h entry hentry output houtput ha hb
  have hpath : ∀ {a b}, Relation.TransGen m.Edge a b → rank a < rank b := fun hpath => by
    induction hpath with
    | single hab => exact hedge _ _ hab
    | tail _ hab ih => exact ih.trans (hedge _ _ hab)
  exact fun a hcycle => absurd (hpath hcycle) (lt_irrefl _)

def ActiveNode (s : Session) (id : ℤ) : Prop := 0 ≤ id ∧ s.Active id

/-! ### Performed actions -/

def performedIds (trace : List Event) : List ℤ := trace.filterMap Event.performedId?

theorem performedIds_append (trace events : List Event) :
    performedIds (trace ++ events) = performedIds trace ++ performedIds events := List.filterMap_append

theorem performedIds_sent (sent : List Request) : performedIds (sent.map Event.sent) = [] := by
  induction sent with
  | nil => rfl
  | cons request sent ih => exact ih

theorem performedIds_perform (hm : m.Laid) {id : ℤ} {ptr : ActionPtr ω} (hptr : m.actions.find? id = some ptr)
    {expected : List String} {w w' : World ω} {result : Result}
    (hperform : ptr.perform expected w = (w', result)) :
    performedIds w'.trace = performedIds w.trace ++ [id] := by
  obtain ⟨sent, htrace⟩ := ptr.trace_of_perform hperform
  have hreplies : performedIds (ptr.wrapReplies expected w.session) = [] := by
    unfold ActionPtr.wrapReplies
    rcases ptr.wrapper with _ | _ | _ | _ | _ <;> rfl
  have hcons : ∀ events, performedIds (.performed ptr.getActionId w.session :: events) =
      ptr.getActionId :: performedIds events := fun _ => rfl
  rw [htrace, performedIds_append, hcons, performedIds_append, hreplies, performedIds_sent, hm.own hptr]
  rfl

/-! ### Results that fulfil the contract -/

def Fulfils (m : StateMachine ω) (w : World ω) (result : Result) : Prop :=
  result.type = .done ∧ (m.actions.find? result.actionId).all (·.checkOutputs w.env w.session) = true

instance (w : World ω) (result : Result) : Decidable (m.Fulfils w result) :=
  inferInstanceAs (Decidable (_ ∧ _))

theorem Fulfils.checkOutputs {result : Result} (h : m.Fulfils w result) {ptr : ActionPtr ω}
    (hptr : m.actions.find? result.actionId = some ptr) : ptr.checkOutputs w.env w.session = true := by
  have hall := h.2
  rwa [hptr] at hall

theorem Fulfils.consumed {result : Result} (hfulfils : m.Fulfils w result) {ptr : ActionPtr ω}
    (hptr : m.actions.find? result.actionId = some ptr) {out : Onward ω} (h : m.Consumed w result ptr out) :
    ∃ s s' next, m.bindResults w.env (w.session.setStatus result.actionId .done) result.actionId = .ok s ∧
      m.getNext s = .ok (next, s') ∧ out = ({ w with session := s' }, some (.executeAction next)) := by
  cases h with
  | broken _ hcheck =>
    rw [hfulfils.checkOutputs hptr] at hcheck
    cases hcheck
  | done _ _ hbind hnext => exact ⟨_, _, _, hbind, hnext, rfl⟩
  | async htype => exact nomatch htype.symm.trans hfulfils.1
  | finish htype => exact nomatch htype.symm.trans hfulfils.1
  | wait htype => exact nomatch htype.symm.trans hfulfils.1
  | error htype => exact nomatch htype.symm.trans hfulfils.1

end StateMachine

/-- The result that is consumed next, if there is one, fulfils the contract. -/
def Config.Fulfils {ω : Type} (m : StateMachine ω) : Config ω → Prop
  | .running (.actionExecuted result) w => m.Fulfils w result
  | _ => True

instance {ω : Type} (m : StateMachine ω) : (c : Config ω) → Decidable (c.Fulfils m)
  | .running (.actionExecuted result) w => inferInstanceAs (Decidable (m.Fulfils w result))
  | .running (.executeAction _) _ | .returned _ | .crashed _ _ => inferInstanceAs (Decidable True)

end LibWorkflow
