import LibWorkflow.Service.Temporary
import Mathlib.Data.List.Perm.Basic

/-!
# The life of a temporary workflow

A temporary controller adds a workflow for each valid text it is given, and drops the workflow of a request
that has executed Die, whichever workflow has that name then. So a workflow lives as long as its request if
no other text gets its name, from a prefix of three characters and the name its client chose, and if the request
is one that opens a session: one that is refused does not execute Die, and its workflow stays
(`temporary_lifetimes`).
-/

namespace LibWorkflow

open Ordered

variable {ω : Type}

/-- A request that a workflow without a session for it accepts. -/
def Request.Opens (request : Request) : Prop :=
  request.target.target = .defaultAction ∨ request.target.target = .status

namespace Hosted

def Executed (object : Hosted ω) : Prop := object.working.Died object.request.getId

def Refused (object : Hosted ω) : Prop :=
  .refused (Workflow.errorReply object.request) ∈ object.working.history

def Untouched (object : Hosted ω) : Prop := ∀ id, object.working.workflow.sessions.find? id = none

/-- The workflow has served its own request only. -/
structure Own (object : Hosted ω) : Prop where
  name : object.request.target.workflow = object.name
  opens : object.request.Opens
  sessions : ∀ id rsession, object.working.workflow.sessions.find? id = some rsession → id = object.request.getId
  accepted : ¬object.Refused

end Hosted

/-- The workflow is the one that is found under the name in its request until that has executed Die or was
refused, and is not registered afterwards. -/
structure Hosting.Lifetime (x : Hosting ω) (pointer : ℕ) (object : Hosted ω) : Prop where
  found : ¬object.Executed → ¬object.Refused →
    x.controller.workflows.find? object.request.target.workflow = some pointer
  gone : object.Executed ∨ object.Refused → ∀ name, x.controller.workflows.find? name ≠ some pointer

/-- A text that a request brings gets a name that no workflow got before, and if it is valid, the request is one
that opens a session. -/
def Hosting.Distinct (host : Host ω) (x : Hosting ω) : Option (Hosting.Input ω) → Prop
  | some (.perform req draws _) => req.workflowJson.isEmpty = false →
    (∀ object ∈ x.objects, object.name ≠ (TemporaryController.makeWorkflow host draws.uuid req.workflowJson).name) ∧
      ((TemporaryController.makeWorkflow host draws.uuid req.workflowJson).stateMachine.validate = none → req.Opens)
  | _ => True

/-! ### One workflow -/

namespace Workflow

variable {c c' : Working ω} {label : Option Arrival} {request : Request}

theorem opens_of_canExecute (hcan : c.workflow.canExecuteRequest request = true)
    (hnone : c.workflow.sessions.find? request.getId = none) : request.Opens := by
  have hcontains := OrdMap.contains_eq_false_iff.mpr hnone
  unfold canExecuteRequest at hcan
  simp only [hcontains, Bool.false_and, Bool.or_false, Bool.not_false, Bool.true_and, Bool.or_eq_true,
    decide_eq_true_eq] at hcan
  exact hcan

theorem canExecute_of_opens (hopens : request.Opens) (hnone : c.workflow.sessions.find? request.getId = none) :
    c.workflow.canExecuteRequest request = true := by
  have hcontains := OrdMap.contains_eq_false_iff.mpr hnone
  unfold canExecuteRequest
  rcases hopens with hkind | hkind <;> simp [hcontains, hkind]

theorem opened_of_trans (h : (system ω).Trans c label c') {x : UUID} {rsession : RunningSession}
    (hafter : c'.workflow.sessions.find? x = some rsession) :
    (∃ rsession, c.workflow.sessions.find? x = some rsession) ∨
      ∃ request flag, label = some (.perform request flag) ∧ request.getId = x ∧ request.Opens := by
  cases hbefore : c.workflow.sessions.find? x with
  | some rsession => exact Or.inl ⟨rsession, rfl⟩
  | none =>
    obtain ⟨request, flag, hlabel, hid, hcan, -⟩ := exists_opening h hbefore hafter
    exact Or.inr ⟨request, flag, hlabel, hid, opens_of_canExecute hcan (hid ▸ hbefore)⟩

theorem refused_of_trans (h : (system ω).Trans c label c') {reply : Request} (hmem : .refused reply ∈ c'.history) :
    .refused reply ∈ c.history ∨ ∃ request flag, label = some (.perform request flag) ∧
      c.workflow.canExecuteRequest request = false ∧ reply = errorReply request := by
  have hengages : ∀ {b : Working ω} {id performing rsession rest}, Engages b id performing rsession rest c' →
      .refused reply ∈ b.history := by
    intro b id performing rsession rest h
    obtain ⟨events, hhistory⟩ := h.history
    rw [hhistory] at hmem
    simpa using hmem
  cases moved_of_trans h with
  | called _ _ _ h => exact Or.inl (hengages h)
  | @returned execution rsession rest =>
    have hhistory : (c.leave execution rsession rest).history = c.history := by
      unfold Working.leave
      split_ifs <;> rfl
    exact Or.inl (hhistory ▸ hmem)
  | @refused request flag hcan =>
    rcases List.mem_append.mp hmem with hbefore | hnow
    · exact Or.inl hbefore
    · exact Or.inr ⟨request, flag, rfl, hcan, by simpa using hnow⟩
  | parked =>
    rcases List.mem_append.mp hmem with hbefore | hnow
    · exact Or.inl hbefore
    · simp at hnow
  | handed _ _ h =>
    rcases List.mem_append.mp (hengages h) with hbefore | hnow
    · exact Or.inl hbefore
    · simp at hnow
  | finishing _ h => exact Or.inl (hengages h)

end Workflow

theorem Workflow.target_of_errorReply {request request' : Request} (h : errorReply request = errorReply request') :
    request.target = request'.target := by
  have hreport := congrArg Request.report h
  simp only [errorReply, ErrorReportOf.ofError, Option.some.injEq, ErrorReportOf.mk.injEq] at hreport
  exact hreport.1

namespace Hosted

variable {object : Hosted ω} {env : ω} {label : Option Arrival} {working : Working ω}

/-- A workflow without sessions has none as long as no request opens one. -/
theorem Untouched.of_trans (huntouched : object.Untouched)
    (htrans : (Workflow.system ω).Trans { object.working with env := env } label working)
    (hlabel : ∀ request flag, label = some (.perform request flag) → ¬request.Opens) :
    ({ object with working := working } : Hosted ω).Untouched := by
  intro id
  rw [Option.eq_none_iff_forall_ne_some]
  intro rsession hafter
  rcases Workflow.opened_of_trans htrans hafter with ⟨rs, hbefore⟩ | ⟨request, flag, hperform, -, hopens⟩
  · have hnone : object.working.workflow.sessions.find? id = none := huntouched id
    cases hbefore.symm.trans hnone
  · exact hlabel request flag hperform hopens

/-- A workflow that is given its own request first, and no other that opens a session, has served its own
request only. -/
theorem Own.of_trans (hown : object.Own)
    (htrans : (Workflow.system ω).Trans { object.working with env := env } label working)
    (hlabel : ∀ request flag, label = some (.perform request flag) →
      (request = object.request ∧ object.Untouched) ∨ ¬request.Opens) :
    ({ object with working := working } : Hosted ω).Own where
  name := hown.name
  opens := hown.opens
  sessions id rsession hafter := by
    rcases Workflow.opened_of_trans htrans hafter with ⟨rs, hbefore⟩ | ⟨request, flag, hperform, hid, hopens⟩
    · exact hown.sessions id rs hbefore
    · rcases hlabel request flag hperform with ⟨rfl, -⟩ | hnot
      · exact hid.symm
      · exact absurd hopens hnot
  accepted hrefused := by
    rcases Workflow.refused_of_trans htrans hrefused with hbefore | ⟨request, flag, hperform, hcan, hreply⟩
    · exact hown.accepted hbefore
    · rcases hlabel request flag hperform with ⟨rfl, huntouched⟩ | hnot
      · rw [Workflow.canExecute_of_opens hown.opens (huntouched _)] at hcan
        cases hcan
      · have htarget : object.request.target = request.target := Workflow.target_of_errorReply hreply
        refine hnot ?_
        unfold Request.Opens
        rw [← htarget]
        exact hown.opens

end Hosted

/-- What is posted where no workflow is added: a reply, or a request for the name its text got. -/
theorem TemporaryController.calls_of_none {α : Type} {host : Host ω} {c : Controller α} {req : Request}
    (draws : Draws α) (h : provided? host draws.uuid req = none) {call : α × Request}
    (hcall : call ∈ (perform host draws c req).dispatches.filterMap Dispatch.posted?) :
    call.2.target.target = .reply ∨ (req.workflowJson.isEmpty = false ∧
      call.2.target.workflow = (makeWorkflow host draws.uuid req.workflowJson).name) := by
  cases hjson : req.workflowJson.isEmpty with
  | true =>
    by_cases hkind : req.target.target = .reply
    · rw [perform_of_reply hjson hkind] at hcall
      rw [((c.perform_calls req).2 call hcall).1]
      exact Or.inl hkind
    · rw [perform_of_empty hjson hkind] at hcall
      exact absurd hcall List.not_mem_nil
  | false =>
    refine Or.inr ⟨rfl, ?_⟩
    obtain ⟨report, hinvalid⟩ := invalid_of_provided?_eq_none h hjson
    rw [perform_of_invalid hjson rfl hinvalid] at hcall
    rw [((c.perform_calls (retarget req (makeWorkflow host draws.uuid req.workflowJson).name)).2 call hcall).1]
    rfl

/-! ### All workflows -/

namespace Hosting

variable {x x' : Hosting ω} {host : Host ω} {pointer : ℕ} {object : Hosted ω}

/-- No two workflows have one name, each serves its own request, and the requests that open sessions are posted
once, to workflows without sessions. -/
structure Apart (x : Hosting ω) : Prop where
  names : (x.objects.map Hosted.name).Nodup
  own : ∀ object ∈ x.objects, object.Own
  calls : ∀ call ∈ x.posted, ∃ object, x.objects[call.1]? = some object ∧
    ((call.2 = object.request ∧ object.Untouched) ∨ ¬call.2.Opens)
  once : x.posted.Pairwise fun call call' => call.1 = call'.1 → ¬call.2.Opens ∨ ¬call'.2.Opens
  found : ∀ p object, x.objects[p]? = some object → ¬object.Executed →
    x.controller.workflows.find? object.name = some p
  gone : ∀ p object, x.objects[p]? = some object → object.Executed →
    ∀ name, x.controller.workflows.find? name ≠ some p

theorem apart_opened : Apart (opened ω) where
  names := by simp [opened]
  own := by simp [opened]
  calls := by simp [opened]
  once := by simp [opened]
  found := by simp [opened]
  gone := by simp [opened]

theorem Apart.pointer_eq (hx : x.Apart) {p q : ℕ} {o o' : Hosted ω} (hp : x.objects[p]? = some o)
    (hq : x.objects[q]? = some o') (hname : o.name = o'.name) : p = q := by
  have hlt : p < (x.objects.map Hosted.name).length := by
    rw [List.length_map]
    exact (List.getElem?_eq_some_iff.mp hp).1
  rw [← List.getElem?_inj hlt hx.names]
  rw [List.getElem?_map, List.getElem?_map, hp, hq, Option.map_some, Option.map_some, hname]

/-! #### Requests -/

theorem not_opens_of_reply {request : Request} (h : request.target.target = .reply) : ¬request.Opens := by
  unfold Request.Opens
  simp [h]

theorem getElem?_concat_cases {α : Type} {l : List α} {a b : α} {p : ℕ} (h : (l ++ [a])[p]? = some b) :
    l[p]? = some b ∨ (p = l.length ∧ b = a) := by
  obtain ⟨hlt, hget⟩ := List.getElem?_eq_some_iff.mp h
  rw [List.length_append, List.length_singleton] at hlt
  by_cases hp : p < l.length
  · rw [List.getElem?_append_left hp] at h
    exact Or.inl h
  · obtain rfl : p = l.length := by omega
    rw [List.getElem?_concat_length] at h
    exact Or.inr ⟨rfl, (Option.some.inj h).symm⟩

theorem getElem?_set_cases {α : Type} {l : List α} {a b : α} {i p : ℕ} (h : (l.set i a)[p]? = some b) :
    (p = i ∧ b = a) ∨ (p ≠ i ∧ l[p]? = some b) := by
  rw [List.getElem?_set] at h
  by_cases hp : i = p
  · rw [if_pos hp] at h
    split_ifs at h
    exact Or.inl ⟨hp.symm, (Option.some.inj h).symm⟩
  · rw [if_neg hp] at h
    exact Or.inr ⟨Ne.symm hp, h⟩

/-- What is said of each two elements, in any order, is said of one and those that are left without it. -/
theorem rel_of_mem_eraseIdx {α : Type} {l : List α} {r : α → α → Prop} (hl : l.Pairwise r)
    (hsymm : ∀ a b, r a b → r b a) {i : ℕ} {a b : α} (ha : l[i]? = some a) (hb : b ∈ l.eraseIdx i) : r a b := by
  obtain ⟨hlt, rfl⟩ := List.getElem?_eq_some_iff.mp ha
  have hperm := (List.getElem_cons_eraseIdx_perm hlt).pairwise_iff fun {a b} h => hsymm a b h
  exact List.rel_of_pairwise_cons (hperm.mpr hl) hb

/-- A text gets a name of its own: what is posted where no workflow is added opens no session. -/
theorem apart_posted (hx : x.Apart) {calls : List (ℕ × Request)}
    (hcalls : ∀ call ∈ calls, (∃ object, x.objects[call.1]? = some object) ∧ ¬call.2.Opens) :
    ({ x with posted := x.posted ++ calls } : Hosting ω).Apart := by
  refine { hx with calls := ?_, once := ?_ }
  · refine List.forall_mem_append.mpr ⟨hx.calls, fun call hcall => ?_⟩
    obtain ⟨⟨object, hobject⟩, hnot⟩ := hcalls call hcall
    exact ⟨object, hobject, Or.inr hnot⟩
  · refine List.pairwise_append.mpr ⟨hx.once, ?_, ?_⟩
    · exact List.pairwise_of_forall_mem_list fun call hcall _ _ _ => Or.inl (hcalls call hcall).2
    · exact fun _ _ call hcall _ => Or.inr (hcalls call hcall).2

theorem apart_added (hx : x.Apart) (made : Hosted ω) (hname : ∀ object ∈ x.objects, object.name ≠ made.name)
    (hown : made.Own) (huntouched : made.Untouched) (hhistory : made.working.history = []) (log : List Registration) :
    ({ controller := { x.controller with
          workflows := x.controller.workflows.insert made.name x.objects.length }
       objects := x.objects ++ [made]
       posted := x.posted ++ [(x.objects.length, made.request)]
       log := log } : Hosting ω).Apart where
  names := by
    rw [List.map_append, List.map_singleton]
    refine List.nodup_append.mpr ⟨hx.names, List.nodup_singleton _, ?_⟩
    rintro name hmem name' hmem' rfl
    obtain ⟨object, hobject, rfl⟩ := List.mem_map.mp hmem
    exact hname object hobject (List.mem_singleton.mp hmem')
  own := List.forall_mem_append.mpr ⟨hx.own, List.forall_mem_singleton.mpr hown⟩
  calls := by
    refine List.forall_mem_append.mpr ⟨fun call hcall => ?_, List.forall_mem_singleton.mpr ?_⟩
    · obtain ⟨object, hobject, hcase⟩ := hx.calls call hcall
      obtain ⟨hlt, -⟩ := List.getElem?_eq_some_iff.mp hobject
      exact ⟨object, (List.getElem?_append_left hlt).trans hobject, hcase⟩
    · exact ⟨made, List.getElem?_concat_length, Or.inl ⟨rfl, huntouched⟩⟩
  once := by
    refine List.pairwise_append.mpr ⟨hx.once, List.pairwise_singleton _ _, ?_⟩
    intro call hcall call' hcall' hsame
    obtain ⟨object, hobject, -⟩ := hx.calls call hcall
    obtain ⟨hlt, -⟩ := List.getElem?_eq_some_iff.mp hobject
    rw [List.mem_singleton.mp hcall'] at hsame
    omega
  found p object hobject halive := by
    rcases getElem?_concat_cases hobject with hbefore | ⟨rfl, rfl⟩
    · exact (OrdMap.find?_insert_of_ne _ _ (hname object (List.mem_of_getElem? hbefore))).trans
        (hx.found p object hbefore halive)
    · exact OrdMap.find?_insert_self _ _ _
  gone p object hobject hdied name hfind := by
    rcases getElem?_concat_cases hobject with hbefore | ⟨rfl, rfl⟩
    · have hfind' : (x.controller.workflows.insert made.name x.objects.length).find? name = some p := hfind
      rw [OrdMap.find?_insert] at hfind'
      split_ifs at hfind' with hmade
      · obtain ⟨hlt, -⟩ := List.getElem?_eq_some_iff.mp hbefore
        cases hfind'
        omega
      · exact hx.gone p object hbefore hdied name hfind'
    · unfold Hosted.Executed Working.Died at hdied
      -- the workflow that was made has not done anything
      rw [hhistory] at hdied
      cases hdied

theorem apart_perform (hx : x.Apart) (hkept : Kept x) {req : Request} {draws : Draws ℕ} {env : ω}
    (hguard : x.Distinct host (some (.perform req draws env))) : (x.perform host req draws env).Apart := by
  cases hprovided : TemporaryController.provided? host draws.uuid req with
  | none =>
    obtain ⟨calls, hperform, hfound⟩ := perform_of_none x env hprovided
    have hcalls := List.append_cancel_left (congrArg Hosting.posted hperform)
    rw [hperform]
    refine apart_posted hx fun call hcall => ?_
    obtain ⟨object, hobject, hname⟩ := hkept.exists_object (hfound call hcall)
    refine ⟨⟨object, hobject⟩, ?_⟩
    rw [← hcalls] at hcall
    rcases TemporaryController.calls_of_none { draws with workflow := x.objects.length } hprovided hcall with
      hreply | ⟨hjson, htext⟩
    · exact not_opens_of_reply hreply
    · exact absurd (hname.trans htext) ((hguard hjson).1 object (List.mem_of_getElem? hobject))
  | some workflow =>
    obtain ⟨hjson, hmake, hvalid⟩ := TemporaryController.provided?_eq_some hprovided
    obtain ⟨hname, hopens⟩ := hguard hjson
    rw [hmake] at hname hopens
    have hown : Hosted.Own (⟨workflow.name, TemporaryController.retarget req workflow.name,
        Workflow.opened workflow.stateMachine workflow.initialised env⟩ : Hosted ω) := by
      refine ⟨rfl, hopens hvalid, fun id rsession hfind => ?_, List.not_mem_nil⟩
      cases hfind
    rw [perform_of_some x env hprovided]
    exact apart_added hx _ hname hown (fun _ => rfl) rfl _

/-! #### Steps of a workflow -/

theorem find?_foldl_requestFinished {c : Controller ℕ} (htemporary : c.temporary = true)
    {entries : List (UUID × Request)} {name : String}
    (hentries : ∀ entry ∈ entries, entry.2.target.workflow = name) (name' : String) :
    (entries.foldl (fun controller entry => controller.requestFinished entry.2) c).workflows.find? name' =
      if entries ≠ [] ∧ name' = name then none else c.workflows.find? name' := by
  induction entries generalizing c with
  | nil => simp
  | cons entry entries ih =>
    obtain ⟨hentry, hrest⟩ := List.forall_mem_cons.mp hentries
    have hdrop : c.requestFinished entry.2 = c.dropWorkflow name := by
      rw [← hentry]
      exact if_pos htemporary
    rw [List.foldl_cons, hdrop, ih (c := c.dropWorkflow name) htemporary hrest]
    unfold Controller.dropWorkflow
    rw [OrdMap.find?_erase]
    by_cases hname : name' = name <;> simp [hname]

/-- What a workflow may be given: its own request, once, before it has a session, or a request that opens none. -/
def Gives (x : Hosting ω) (pointer : ℕ) (object : Hosted ω) (label : Option Arrival) : Prop :=
  ∀ request flag, label = some (.perform request flag) →
    (request = object.request ∧ object.Untouched ∧ ∀ call ∈ x.posted, call.1 = pointer → ¬call.2.Opens) ∨
      ¬request.Opens

/-- A workflow has executed Die for no request but its own. -/
theorem executed_of_died (hretained : Retained object.working) (hown : object.Own) {id : UUID}
    (hdied : object.working.Died id) : object.Executed := by
  obtain ⟨event, hevent⟩ := Working.exists_of_died hdied
  obtain ⟨rsession, hfind⟩ := OrdMap.contains_iff.mp (hretained.witnessed id event hevent)
  have hid := hown.sessions id rsession hfind
  rw [hid] at hdied
  exact hdied

/-- A workflow that has served its own request executes Die where it finishes a request. -/
theorem executed_iff_of_finished {working : Working ω} {l : List (UUID × Request)} (hretained : Retained working)
    (hown : ({ object with working := working } : Hosted ω).Own)
    (hfinished : working.finished = object.working.finished ++ l) :
    ({ object with working := working } : Hosted ω).Executed ↔ object.Executed ∨ l ≠ [] := by
  constructor
  · intro hdied
    obtain ⟨request, hentry⟩ := Working.died_iff.mp hdied
    rw [hfinished] at hentry
    rcases List.mem_append.mp hentry with hbefore | hnow
    · exact Or.inl (Working.died_iff.mpr ⟨request, hbefore⟩)
    · exact Or.inr (List.ne_nil_of_mem hnow)
  · rintro (hdied | hsome)
    · obtain ⟨request, hentry⟩ := Working.died_iff.mp hdied
      exact Working.died_iff.mpr ⟨request, hfinished ▸ List.mem_append_left l hentry⟩
    · obtain ⟨entry, hentry⟩ := List.exists_mem_of_ne_nil l hsome
      have hnow : entry ∈ working.finished := hfinished ▸ List.mem_append_right _ hentry
      exact executed_of_died hretained hown (Working.died_iff.mpr ⟨entry.2, hnow⟩)

theorem map_name_set {objects : List (Hosted ω)} (hobject : objects[pointer]? = some object)
    (working : Working ω) :
    (objects.set pointer { object with working := working }).map Hosted.name = objects.map Hosted.name := by
  obtain ⟨hlt, hget⟩ := List.getElem?_eq_some_iff.mp hobject
  have hlt' : pointer < (objects.map Hosted.name).length := by rwa [List.length_map]
  have hname : (objects.map Hosted.name)[pointer] = object.name := by rw [List.getElem_map, hget]
  rw [List.map_set]
  exact (congrArg _ hname.symm).trans (List.set_getElem_self hlt')

theorem calls_of_trans (hx : x.Apart) (hobject : x.objects[pointer]? = some object) {label : Option Arrival}
    {env : ω} {working : Working ω} (hgives : x.Gives pointer object label)
    (htrans : (Workflow.system ω).Trans { object.working with env := env } label working) :
    ∀ call ∈ x.posted, ∃ o, (x.objects.set pointer { object with working := working })[call.1]? = some o ∧
      ((call.2 = o.request ∧ o.Untouched) ∨ ¬call.2.Opens) := by
  obtain ⟨hlt, -⟩ := List.getElem?_eq_some_iff.mp hobject
  intro call hcall
  obtain ⟨o, ho, hcase⟩ := hx.calls call hcall
  by_cases hp : call.1 = pointer
  swap
  · exact ⟨o, (List.getElem?_set_ne (Ne.symm hp)).trans ho, hcase⟩
  rw [hp] at ho
  cases hobject.symm.trans ho
  refine ⟨_, (congrArg _ hp).trans (List.getElem?_set_self hlt), ?_⟩
  refine or_iff_not_imp_right.mpr fun hopens => ?_
  obtain ⟨hrequest, huntouched⟩ := hcase.resolve_right hopens
  refine ⟨hrequest, huntouched.of_trans htrans fun request flag hperform => ?_⟩
  rcases hgives request flag hperform with ⟨-, -, hothers⟩ | hnot
  · exact absurd (hothers call hcall hp) hopens
  · exact hnot

theorem apart_work (hx : x.Apart) (hkept : Kept x) {label : Option Arrival} {env : ω}
    (hlabel : ∀ object, x.objects[pointer]? = some object → x.Gives pointer object label)
    (h : x.work pointer label env = some x') (hkept' : Kept x') : x'.Apart := by
  obtain ⟨object, working, l, hobject, htrans, hfinished, rfl⟩ := work_eq_some h
  obtain ⟨hlt, -⟩ := List.getElem?_eq_some_iff.mp hobject
  have hgives := hlabel object hobject
  have hmoved : ({ object with working := working } : Hosted ω) ∈
      x.objects.set pointer { object with working := working } := List.mem_set hlt _
  have hown' : ({ object with working := working } : Hosted ω).Own := by
    refine (hx.own object (List.mem_of_getElem? hobject)).of_trans htrans fun request flag hperform => ?_
    exact (hgives request flag hperform).imp_left fun hown => ⟨hown.1, hown.2.1⟩
  have hnames : ∀ entry ∈ l, entry.2.target.workflow = object.name := fun entry hentry =>
    (hkept'.serves _ hmoved).finished entry (hfinished ▸ List.mem_append_right _ hentry)
  have hfind := find?_foldl_requestFinished hkept.temporary hnames
  have hexecuted := executed_iff_of_finished (hkept'.retained _ hmoved) hown' hfinished
  constructor
  · exact (map_name_set hobject working).symm ▸ hx.names
  · intro o ho
    rcases List.mem_or_eq_of_mem_set ho with hbefore | rfl
    · exact hx.own o hbefore
    · exact hown'
  · exact calls_of_trans hx hobject hgives htrans
  · exact hx.once
  · intro p o ho halive
    have hfind' := hfind o.name
    rcases getElem?_set_cases ho with ⟨rfl, rfl⟩ | ⟨hp, hbefore⟩
    · rw [hexecuted, not_or, not_not] at halive
      rw [if_neg fun h => h.1 halive.2] at hfind'
      exact hfind'.trans (hx.found p object hobject halive.1)
    · rw [if_neg fun h => hp (hx.pointer_eq hbefore hobject h.2)] at hfind'
      exact hfind'.trans (hx.found p o hbefore halive)
  · intro p o ho hdied name hfound
    rw [hfind name] at hfound
    split_ifs at hfound with hdropped
    rcases getElem?_set_cases ho with ⟨rfl, rfl⟩ | ⟨-, hbefore⟩
    · obtain ⟨o, ho, hname⟩ := hkept.exists_object hfound
      cases hobject.symm.trans ho
      rcases hexecuted.mp hdied with hbefore | hsome
      · exact hx.gone p object hobject hbefore name hfound
      · exact hdropped ⟨hsome, hname.symm⟩
    · exact hx.gone p o hbefore hdied name hfound

theorem apart_accept (hx : x.Apart) (hkept : Kept x) {input : Input ω} (hguard : x.Distinct host (some input))
    (h : (system host).accept x input = some x') : x'.Apart := by
  have hkept' : Kept x' := kept_accept hkept h
  cases input with
  | perform req draws env =>
    cases h
    exact apart_perform hx hkept hguard
  | execute index flag env =>
    obtain ⟨⟨p, request⟩, hcall, h⟩ := Option.bind_eq_some_iff.mp h
    obtain ⟨hindex, hget⟩ := List.getElem?_eq_some_iff.mp hcall
    have herased : ∀ call ∈ x.posted.eraseIdx index, call ∈ x.posted := fun call hmem => List.mem_of_mem_eraseIdx hmem
    have hrest : ({ x with posted := x.posted.eraseIdx index } : Hosting ω).Apart :=
      { hx with
        calls := fun call hmem => hx.calls call (herased call hmem)
        once := hx.once.eraseIdx index }
    have hkeptRest : Kept { x with posted := x.posted.eraseIdx index } :=
      { hkept with posted := fun call hmem => hkept.posted call (herased call hmem) }
    refine apart_work hrest hkeptRest (fun object hobject request' flag' hperform => ?_) h hkept'
    cases hperform
    by_cases hopens : request.Opens
    swap
    · exact Or.inr hopens
    obtain ⟨o, ho, hcase⟩ := hx.calls _ (List.mem_of_getElem? hcall)
    cases ho.symm.trans hobject
    obtain ⟨hrequest, huntouched⟩ := hcase.resolve_right (not_not.mpr hopens)
    refine Or.inl ⟨hrequest, huntouched, fun call hmem hp hopens' => ?_⟩
    have htwo := rel_of_mem_eraseIdx hx.once (fun _ _ h hsame => (h hsame.symm).symm) hcall hmem
    rcases htwo hp.symm with hnot | hnot
    · exact hnot hopens
    · exact hnot hopens'
  | proceed p env => exact apart_work hx hkept (fun _ _ _ _ h => by cases h) h hkept'
  | asyncFinished p id result env => exact apart_work hx hkept (fun _ _ _ _ h => by cases h) h hkept'
  | timedOut p id identifier flag env =>
    obtain ⟨object, hobject, h⟩ := Option.bind_eq_some_iff.mp h
    obtain ⟨request, hrequest, h⟩ := Option.bind_eq_some_iff.mp h
    refine apart_work hx hkept (fun object' hobject' request' flag' hperform => ?_) h hkept'
    cases hperform
    refine Or.inr ?_
    obtain ⟨rsession, -, rfl⟩ := Option.map_eq_some_iff.mp hrequest
    simp [Request.Opens, Request.ofTargets]

/-- **Temporary workflows.** In every run of a temporary controller in which each text gets a name of its own
and the requests of valid texts open sessions, whatever else is given to the controller and in whatever order
threads and workflows work, each workflow is the one found under the name in its request until that has
executed Die, and is not registered afterwards. -/
theorem temporary_lifetimes (hrun : (system host).Run (fun x label => x.Distinct host label) (opened ω) x)
    (hobject : x.objects[pointer]? = some object) : x.Lifetime pointer object := by
  have hinv : Kept x ∧ x.Apart := by
    apply hrun.invariant_cases ⟨kept_opened, apart_opened⟩
    · intro _ _ _ _ h
      cases h
    · rintro y input y' ⟨hkept, hy⟩ hguard h
      exact ⟨kept_accept hkept h, apart_accept hy hkept hguard h⟩
  obtain ⟨-, hx⟩ := hinv
  have hown : object.Own := hx.own object (List.mem_of_getElem? hobject)
  constructor
  · intro halive _
    rw [hown.name]
    exact hx.found pointer object hobject halive
  · rintro (hdied | hrefused)
    · exact hx.gone pointer object hobject hdied
    · exact absurd hrefused hown.accepted

end Hosting

namespace Sample

open Hosting

theorem provided?_empty (uuid : UUID) {req : Request} (h : req.workflowJson = "{}") :
    TemporaryController.provided? readingHost uuid req =
      some (TemporaryController.makeWorkflow readingHost uuid "{}") := by
  have hempty : req.workflowJson.isEmpty = false := by
    rw [h]
    decide
  have hvalid : (TemporaryController.makeWorkflow readingHost uuid "{}").stateMachine.validate = none := rfl
  unfold TemporaryController.provided?
  rw [hempty, h]
  simp [hvalid]

theorem shortId_eq (uuid : UUID) : shortId platform uuid 3 = .ofList ((Nat.toDigits 10 uuid).take 3) := by
  have hwrite : platform.uuid.write uuid = .ofList (Nat.toDigits 10 uuid) := rfl
  unfold shortId
  rw [hwrite, String.toList_ofList]

/-- Workflows whose uuids begin with other digits have other names. -/
theorem makeWorkflow_name_ne {uuid uuid' : UUID}
    (h : (Nat.toDigits 10 uuid).take 3 ≠ (Nat.toDigits 10 uuid').take 3) :
    (TemporaryController.makeWorkflow readingHost uuid "{}").name ≠
      (TemporaryController.makeWorkflow readingHost uuid' "{}").name := by
  intro hname
  have hsuffix : shortId platform uuid 3 ++ ((ProvidedWorkflow.new Unit).strLoad readingHost "{}").name =
      shortId platform uuid' 3 ++ ((ProvidedWorkflow.new Unit).strLoad readingHost "{}").name := hname
  have hprefix := (String.append_left_inj _).mp hsuffix
  rw [shortId_eq, shortId_eq] at hprefix
  exact h (String.ofList_injective hprefix)

def drawing (uuid : UUID) : Draws ℕ := { draws with uuid := uuid }

/-- The same text, in another request. -/
def embeddedAgain : Request := { embedded with target := { embedded.target with identifier := 2 } }

/-- Two texts whose uuids begin with other characters. -/
def sharing : Hosting Unit :=
  ((opened Unit).perform readingHost embedded (drawing 123456) ()).perform readingHost embeddedAgain (drawing 567890) ()

theorem sharing_run : (system readingHost).Run (fun x label => x.Distinct readingHost label) (opened Unit) sharing := by
  have hadded : (system readingHost).Run (fun x label => x.Distinct readingHost label) (opened Unit)
      ((opened Unit).perform readingHost embedded (drawing 123456) ()) := by
    refine .step .start ?_ (.input (i := .perform embedded (drawing 123456) ()) rfl)
    exact fun _ => ⟨fun _ h => absurd h List.not_mem_nil, fun _ => Or.inl rfl⟩
  refine hadded.step ?_ (.input (i := .perform embeddedAgain (drawing 567890) ()) rfl)
  refine fun _ => ⟨fun object hmem hname => ?_, fun _ => Or.inl rfl⟩
  have hfirst : (opened Unit).perform readingHost embedded (drawing 123456) () = _ :=
    perform_of_some (opened Unit) () (provided?_empty 123456 rfl)
  rw [hfirst] at hmem
  obtain rfl := List.mem_singleton.mp hmem
  have hnames : (TemporaryController.makeWorkflow readingHost 123456 "{}").name =
      (TemporaryController.makeWorkflow readingHost 567890 "{}").name := hname
  exact makeWorkflow_name_ne (by decide) hnames

def servedHosting : Hosting Unit :=
  (system readingHost).play 0 (.execute 0 false () :: List.replicate 6 (.proceed 0 ())) sharing

def firstHosted : Hosted Unit := servedHosting.objects.head (by decide)

def secondHosted : Hosted Unit := servedHosting.objects.tail.head (by decide)

/-- The first workflow has executed Die and is registered no more, the second is found under its name. -/
theorem servedHosting_lifetimes :
    (firstHosted.Executed ∧ servedHosting.Lifetime 0 firstHosted) ∧
      ¬secondHosted.Executed ∧ servedHosting.Lifetime 1 secondHosted := by
  have hserved :
      (system readingHost).Run (fun x label => x.Distinct readingHost label) (opened Unit) servedHosting := by
    refine .play (fun _ => trivial) (fun x input hinput => ?_) sharing_run
    rcases List.mem_cons.mp hinput with rfl | hproceed
    · exact trivial
    · rw [List.eq_of_mem_replicate hproceed]
      exact trivial
  have hdied : firstHosted.working.history.any (Occurrence.isDie firstHosted.request.getId) = true := by decide
  have halive : ¬secondHosted.working.history.any (Occurrence.isDie secondHosted.request.getId) = true := by decide
  exact ⟨⟨hdied, temporary_lifetimes hserved rfl⟩, halive, temporary_lifetimes hserved rfl⟩

/-- Two texts whose uuids begin with the same three characters. -/
def colliding : Hosting Unit :=
  ((opened Unit).perform readingHost embedded (drawing 1234) ()).perform readingHost embeddedAgain (drawing 1235) ()

def embeddedReply : Request := { embedded with target := { embedded.target with target := .reply } }

def refusedHosting : Hosting Unit :=
  (system readingHost).play 0 [.perform embeddedReply (drawing 1234) (), .execute 0 false ()] (opened Unit)

def refusedHosted : Hosted Unit := refusedHosting.objects.head (by decide)

theorem refusedHosted_alive (id : UUID) : ¬refusedHosted.working.Died id := Bool.false_ne_true

/-- The first workflow is replaced by the second one before anything was executed; the workflow of a request
that it has refused stays. -/
theorem replaced_and_kept :
    ((system readingHost).Reachable (opened Unit) colliding ∧ ∃ object, colliding.objects[0]? = some object ∧
      ¬object.Executed ∧ ¬object.Refused ∧
      colliding.controller.workflows.find? object.request.target.workflow = some 1) ∧
    (system readingHost).Reachable (opened Unit) refusedHosting ∧ ∃ object, refusedHosting.objects[0]? = some object ∧
      object.Refused ∧ refusedHosting.controller.workflows.find? object.request.target.workflow = some 0 := by
  constructor
  · have hadded : (system readingHost).Reachable (opened Unit)
        ((opened Unit).perform readingHost embedded (drawing 1234) ()) :=
      .step .start trivial (.input (i := .perform embedded (drawing 1234) ()) rfl)
    have hreplaced : (system readingHost).Reachable (opened Unit) colliding :=
      hadded.step trivial (.input (i := .perform embeddedAgain (drawing 1235) ()) rfl)
    have hfirst : (opened Unit).perform readingHost embedded (drawing 1234) () = _ :=
      perform_of_some (opened Unit) () (provided?_empty 1234 rfl)
    have hsecond : colliding = _ := perform_of_some _ () (provided?_empty 1235 rfl)
    have hprefix : shortId platform 1234 3 = shortId platform 1235 3 := by
      rw [shortId_eq, shortId_eq]
      exact congrArg String.ofList (by decide)
    have hname : (TemporaryController.makeWorkflow readingHost 1234 "{}").name =
        (TemporaryController.makeWorkflow readingHost 1235 "{}").name := congrArg (· ++ _) hprefix
    refine ⟨hreplaced, ?_⟩
    rw [hsecond, hfirst]
    refine ⟨_, rfl, Bool.false_ne_true, List.not_mem_nil, ?_⟩
    unfold TemporaryController.retarget
    rw [hname]
    exact OrdMap.find?_insert_self _ _ _
  · have hrefusing : (system readingHost).Reachable (opened Unit) refusedHosting :=
      .play (fun _ => trivial) (fun _ _ _ => trivial) .start
    refine ⟨hrefusing, refusedHosted, rfl, List.mem_singleton.mpr rfl, ?_⟩
    have hname : refusedHosted.request.target.workflow = refusedHosted.name := rfl
    rw [hname, (reachable_kept hrefusing).find?_name_iff rfl refusedHosted_alive]
    exact ⟨[], [], rfl, by simp⟩

end Sample

end LibWorkflow
