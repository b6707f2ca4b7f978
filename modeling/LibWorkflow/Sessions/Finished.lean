import LibWorkflow.Sessions.Projection

/-!
# Finished requests

A session that executes Die tells the controller of its workflow that its request is finished. That request
is the one the session was opened with (`Works.finishes`), so what holds of all requests a workflow is
given holds of those it finishes (`serves_of_trans`).
-/

namespace LibWorkflow

open Ordered Fallible

def Occurrence.finished? : Occurrence → Option (UUID × Request)
  | .session id (.requestFinished request) => some (id, request)
  | _ => none

namespace Working

variable {ω : Type} (c : Working ω)

/-- The requests the controller was told of, the oldest first, each with its session. -/
def finished : List (UUID × Request) := c.history.filterMap Occurrence.finished?

/-- Every session serves a request that meets `P`, and so did those that executed Die. -/
structure Serves (P : Request → Prop) : Prop where
  sessions : ∀ x rsession, c.workflow.sessions.find? x = some rsession → P rsession.session.request
  finished : ∀ entry ∈ c.finished, P entry.2

variable {c} {x : UUID} {request : Request}

theorem mem_finished_iff : (x, request) ∈ c.finished ↔ .requestFinished request ∈ c.events x := by
  simp only [finished, events, List.mem_filterMap]
  constructor
  · rintro ⟨occurrence, hmem, hfinished⟩
    refine ⟨occurrence, hmem, ?_⟩
    unfold Occurrence.finished? at hfinished
    split at hfinished
    · cases hfinished
      exact if_pos rfl
    · cases hfinished
  · rintro ⟨occurrence, hmem, hevent⟩
    refine ⟨occurrence, hmem, ?_⟩
    unfold Occurrence.event? at hevent
    split at hevent
    · split_ifs at hevent with hid
      cases hevent
      rw [hid]
      rfl
    · cases hevent

/-- The sessions that executed Die are those whose requests are finished. -/
theorem died_iff : c.Died x ↔ ∃ request, (x, request) ∈ c.finished := by
  unfold Died finished
  simp only [List.any_eq_true, List.mem_filterMap]
  constructor
  · rintro ⟨occurrence, hmem, hdie⟩
    unfold Occurrence.isDie at hdie
    split at hdie
    · rw [decide_eq_true_eq] at hdie
      subst hdie
      exact ⟨_, _, hmem, rfl⟩
    · cases hdie
  · rintro ⟨request, occurrence, hmem, hfinished⟩
    refine ⟨occurrence, hmem, ?_⟩
    unfold Occurrence.finished? at hfinished
    split at hfinished
    · cases hfinished
      exact decide_eq_true rfl
    · cases hfinished

end Working

namespace StateMachine

variable {ω : Type} {m : StateMachine ω} {env : ω} {s s' : Session} {events : List Event} {request : Request}

theorem receive_finishes (hm : m.Laid) {message : Message} {out : Onward ω}
    (h : m.receive ⟨s, env, []⟩ message = .ok out) : .requestFinished request ∉ out.1.trace := by
  have hsilent : out.1.trace = [] → .requestFinished request ∉ out.1.trace := fun h => by simp [h]
  cases receive_cases hm h with
  | firstCall _ h =>
    rcases firstCall_cases h with ⟨_, _, -, ⟨-, _, _, -, rfl⟩ | ⟨-, rfl⟩⟩ <;> exact hsilent rfl
  | @answered _ ptr _ _ _ _ _ _ hreply =>
    obtain ⟨sent, htrace⟩ := ptr.trace_of_replyReceived hreply
    rw [htrace]
    simp
  | reset => exact hsilent rfl
  | ignored => exact hsilent rfl
  | finished h =>
    obtain ⟨ptr, -, hconsumed⟩ := actionExecuted_cases h
    cases hconsumed <;> exact hsilent rfl

theorem Works.finishes (hm : m.Laid) {received : Option Message} (h : m.Works env s received s' events)
    (hmem : .requestFinished request ∈ events) : request = s.request := by
  cases h with
  | nothing => exact absurd hmem List.not_mem_nil
  | message h => exact absurd hmem (receive_finishes hm h)
  | @call call out h =>
    cases call with
    | actionExecuted result =>
      obtain ⟨ptr, -, hconsumed⟩ := actionExecuted_cases h
      cases hconsumed <;> exact absurd hmem List.not_mem_nil
    | executeAction id =>
      cases executeAction_cases h with
      | die => simpa [World.emit] using hmem
      | nothing h =>
        rw [executeNone_trace h] at hmem
        exact absurd hmem List.not_mem_nil
      | @action _ ptr _ _ _ _ _ hperform =>
        obtain ⟨sent, htrace⟩ := ptr.trace_of_perform hperform
        rw [htrace, List.nil_append] at hmem
        rcases List.mem_cons.mp hmem with hmem | hmem
        · cases hmem
        rcases List.mem_append.mp hmem with hmem | hmem
        · cases isReply_of_mem_wrapReplies hmem
        · simp at hmem
      | absent => exact absurd hmem List.not_mem_nil

end StateMachine

namespace Workflow

variable {ω : Type} {c c' : Working ω} {label : Option Arrival}

/-- **Served requests.** A workflow that is given requests that meet `P` serves and finishes such
requests. -/
theorem serves_of_trans {P : Request → Prop} (hc : Retained c) (hserves : c.Serves P)
    (h : (system ω).Trans c label c')
    (hlabel : ∀ request flag, label = some (.perform request flag) → P request) : c'.Serves P := by
  have hc' : Retained c' := retained_of_moved hc (moved_of_trans h)
  have hsession : ∀ {x rsession'}, c'.workflow.sessions.find? x = some rsession' →
      ∃ s events, c.workflow.stateMachine.Works c.env s (label.map Arrival.message) rsession'.session events ∧
        c'.events x = c.events x ++ events ∧ P s.request := by
    intro x rsession' hafter
    obtain ⟨s, events, hworks, hevents, ⟨rsession, hfind, rfl⟩ | ⟨request, flag, hcall, -, rfl⟩⟩ :=
      exists_works_of_trans hc h hafter
    · exact ⟨_, events, hworks, hevents, hserves.sessions x rsession hfind⟩
    · exact ⟨_, events, hworks, hevents, hlabel request flag hcall⟩
  have hm := c.workflow.initialised.laid
  constructor
  · intro x rsession' hafter
    obtain ⟨s, events, hworks, -, hP⟩ := hsession hafter
    rw [(hworks.lasts hm).1]
    exact hP
  · rintro ⟨x, request⟩ hmem
    have hevent := Working.mem_finished_iff.mp hmem
    have hcontains : c'.workflow.sessions.contains x = true := by
      obtain ⟨event, hmem⟩ := Working.exists_of_died (Working.died_iff.mpr ⟨request, hmem⟩)
      exact hc'.witnessed x event hmem
    obtain ⟨rsession', hafter⟩ := OrdMap.contains_iff.mp hcontains
    obtain ⟨s, events, hworks, hevents, hP⟩ := hsession hafter
    rw [hevents, List.mem_append] at hevent
    rcases hevent with hbefore | hnow
    · exact hserves.finished (x, request) (Working.mem_finished_iff.mpr hbefore)
    · rw [hworks.finishes hm hnow]
      exact hP

/-- Nothing is taken back from what is seen of a workflow. -/
theorem exists_history_of_moved (h : Moved c label c') : ∃ l, c'.history = c.history ++ l := by
  cases h with
  | called _ _ _ h =>
    obtain ⟨events, hhistory⟩ := h.history
    exact ⟨_, hhistory⟩
  | @returned execution rsession rest =>
    refine ⟨[], ?_⟩
    rw [List.append_nil]
    unfold Working.leave
    split_ifs <;> rfl
  | refused => exact ⟨_, rfl⟩
  | parked => exact ⟨_, rfl⟩
  | handed _ _ h =>
    obtain ⟨events, hhistory⟩ := h.history
    exact ⟨_, hhistory.trans (List.append_assoc ..)⟩
  | finishing _ h =>
    obtain ⟨events, hhistory⟩ := h.history
    exact ⟨_, hhistory⟩

theorem exists_finished_of_trans (h : (system ω).Trans c label c') : ∃ l, c'.finished = c.finished ++ l := by
  obtain ⟨l, hhistory⟩ := exists_history_of_moved (moved_of_trans h)
  exact ⟨l.filterMap Occurrence.finished?, by unfold Working.finished; rw [hhistory, List.filterMap_append]⟩

end Workflow

end LibWorkflow
