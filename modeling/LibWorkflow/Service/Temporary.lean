import LibWorkflow.Service.Hosting

/-!
# Messages for a running temporary workflow

A message without a workflow of its own, for a workflow that a temporary controller made, is passed to that
workflow by an ordinary `Controller` as long as the name is still that workflow's. `TemporaryController::perform`
passes no message but a Reply: an Error, an Interrupt or a Status is answered "temporary.empty.workflow"
(`messages_passed_iff`). The name is still the workflow's unless another workflow got it too, from a prefix of
three characters and the name its client chose, or such another one has died.
-/

namespace LibWorkflow

variable {ω : Type}

/-- The message is passed to the `perform` of the workflow, and nothing else is done with it. -/
def Performed.Passes {α : Type} (performed : Performed α) (workflow : α) (message : Request) : Prop :=
  performed.dispatches = [.posted workflow message]

/-- A message for the request a workflow was made of, which brings no workflow itself. -/
structure Hosted.Addressed (object : Hosted ω) (message : Request) : Prop where
  workflowJson : message.workflowJson.isEmpty = true
  controller : message.target.controller = "temporary"
  workflow : message.target.workflow = object.name
  identifier : message.getId = object.request.getId

/-- Since the workflow was added, no other one of its name was added, and none of its name has died. -/
def Hosting.Undisturbed (x : Hosting ω) (pointer : ℕ) (name : String) : Prop :=
  ∃ before after, x.log = before ++ .added pointer name :: after ∧
    ∀ r ∈ after, r.pointer ≠ pointer → r.name ≠ name

theorem Controller.passes_iff {α : Type} (c : Controller α) (message : Request) (workflow : α) :
    (c.perform message).Passes workflow message ↔ c.workflows.find? message.target.workflow = some workflow := by
  unfold Performed.Passes
  cases hfind : c.workflows.find? message.target.workflow with
  | none => simp [perform_of_absent hfind]
  | some found => simp [perform_of_find? hfind]

theorem TemporaryController.passes_iff {α : Type} (host : Host ω) (draws : Draws α) (c : Controller α)
    {message : Request} (hjson : message.workflowJson.isEmpty = true) (workflow : α) :
    (perform host draws c message).Passes workflow message ↔
      message.target.target = .reply ∧ c.workflows.find? message.target.workflow = some workflow := by
  by_cases hkind : message.target.target = .reply
  · rw [perform_of_reply hjson hkind, Controller.passes_iff]
    exact (and_iff_right hkind).symm
  · rw [perform_of_empty hjson hkind]
    simp [Performed.Passes, hkind]

namespace Hosting

variable {x : Hosting ω} {object : Hosted ω} {pointer : ℕ}

theorem Kept.pointer_ne (hx : Kept x) (hobject : x.objects[pointer]? = some object)
    (halive : ∀ id, ¬object.working.Died id) {before after : List Registration} {name : String}
    (hlog : x.log = before ++ .added pointer name :: after) : ∀ r ∈ after, r.pointer ≠ pointer := by
  rintro r hr rfl
  have hmem : r ∈ x.log := hlog ▸ List.mem_append_right before (.tail _ hr)
  obtain ⟨object', hobject', habout⟩ := hx.known r hmem
  cases hobject.symm.trans hobject'
  cases r with
  | died p n =>
    obtain ⟨-, id, hdied⟩ := habout
    exact halive id hdied
  | added p n =>
    have hnodup : (x.log.filterMap Registration.added?).Nodup := hx.added ▸ List.nodup_range
    have hagain : p ∈ after.filterMap Registration.added? := List.mem_filterMap.mpr ⟨_, hr, rfl⟩
    rw [hlog, List.filterMap_append, List.nodup_append] at hnodup
    exact (List.nodup_cons.mp hnodup.2.1).1 hagain

/-- A workflow that has not died is found under its name as long as no other of that name interferes. -/
theorem Kept.find?_name_iff (hx : Kept x) (hobject : x.objects[pointer]? = some object)
    (halive : ∀ id, ¬object.working.Died id) :
    x.controller.workflows.find? object.name = some pointer ↔ x.Undisturbed pointer object.name := by
  rw [hx.workflows, Registry.find?_replay_eq_some_iff]
  constructor
  · rintro ⟨before', after', hlog, hafter⟩
    obtain ⟨before, rest, hsplit, -, hrest⟩ := List.map_eq_append_iff.mp hlog
    obtain ⟨r, after, rfl, hr, rfl⟩ := List.map_eq_cons_iff.mp hrest
    cases r with
    | died => cases hr
    | added =>
      cases hr
      refine ⟨before, after, hsplit, fun r hr _ => ?_⟩
      rw [← r.key_entry]
      exact hafter r.entry (List.mem_map_of_mem hr)
  · rintro ⟨before, after, hlog, hafter⟩
    refine ⟨before.map Registration.entry, after.map Registration.entry, by rw [hlog, List.map_append]; rfl, ?_⟩
    refine List.forall_mem_map.mpr fun r hr => ?_
    rw [r.key_entry]
    exact hafter r hr (hx.pointer_ne hobject halive hlog r hr)

/-- **Messages for a temporary workflow.** In every state a temporary controller reaches, a message for a
workflow that has not died is passed to it just when it is a Reply and no other workflow of that name has
interfered; an ordinary controller asks for the latter only. -/
theorem messages_passed_iff {host : Host ω} (hrun : (system host).Reachable (opened ω) x)
    (hobject : x.objects[pointer]? = some object) (halive : ∀ id, ¬object.working.Died id) (draws : Draws ℕ)
    {message : Request} (hmessage : object.Addressed message) :
    ((TemporaryController.perform host draws x.controller message).Passes pointer message ↔
        message.target.target = .reply ∧ x.Undisturbed pointer object.name) ∧
      ((x.controller.perform message).Passes pointer message ↔ x.Undisturbed pointer object.name) := by
  have hkept : Kept x := reachable_kept hrun
  have hfind := hkept.find?_name_iff hobject halive
  constructor
  · rw [TemporaryController.passes_iff host draws x.controller hmessage.workflowJson, hmessage.workflow, hfind]
  · rw [Controller.passes_iff, hmessage.workflow, hfind]

end Hosting

namespace Sample

open Hosting

def readingHost : Host Unit := ⟨platform, registry, fun text => if text = "{}" then some .empty else none⟩

def embedded : Request := { request .defaultAction 0 0 with workflowJson := "{}" }

def hosting : Hosting Unit :=
  (system readingHost).play 0 [.perform embedded draws (), .execute 0 false ()] (opened Unit)

def begunHosted : Hosted Unit := hosting.objects.head (by decide)

def messageOf (kind : TargetAction) : Request :=
  Request.ofTargets ⟨"temporary", "123", 1, 0, 0, kind, 0⟩ (target .reply (-1) 0)

theorem hosting_reachable : (system readingHost).Reachable (opened Unit) hosting :=
  .play (fun _ => trivial) (fun _ _ _ => trivial) .start

theorem begunHosted_alive (id : UUID) : ¬begunHosted.working.Died id := by
  have hfinished : begunHosted.working.finished = [] := rfl
  rw [Working.died_iff, hfinished]
  rintro ⟨_, h⟩
  cases h

theorem begunHosted_addressed (kind : TargetAction) : begunHosted.Addressed (messageOf kind) :=
  ⟨rfl, rfl, rfl, rfl⟩

/-- A Reply is passed to the workflow. -/
theorem reply_passed :
    (TemporaryController.perform readingHost draws hosting.controller (messageOf .reply)).Passes 0
      (messageOf .reply) :=
  (messages_passed_iff hosting_reachable rfl begunHosted_alive draws (begunHosted_addressed .reply)).1.mpr
    ⟨rfl, [], [], rfl, by simp⟩

/-- An Error, an Interrupt and a Status are not, as they would be by an ordinary controller. -/
theorem other_kinds_not_passed : (system readingHost).Reachable (opened Unit) hosting ∧
    hosting.objects[0]? = some begunHosted ∧ (∀ id, ¬begunHosted.working.Died id) ∧
    ∀ kind ∈ [TargetAction.error, .interrupt, .status], begunHosted.Addressed (messageOf kind) ∧
      ¬(TemporaryController.perform readingHost draws hosting.controller (messageOf kind)).Passes 0
        (messageOf kind) ∧
      (hosting.controller.perform (messageOf kind)).Passes 0 (messageOf kind) := by
  refine ⟨hosting_reachable, rfl, begunHosted_alive, fun kind hkind =>
    ⟨begunHosted_addressed kind, fun h => ?_, ?_⟩⟩
  · obtain ⟨hreply, -⟩ := (TemporaryController.passes_iff readingHost draws hosting.controller rfl 0).mp h
    have hkind' : kind = .reply := hreply
    subst hkind'
    simp at hkind
  · exact (Controller.passes_iff hosting.controller (messageOf kind) 0).mpr rfl

end Sample

end LibWorkflow
