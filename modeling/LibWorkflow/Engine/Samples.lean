import LibWorkflow.Engine.Progress

/-!
# Sample sessions

The requests, actions and machines the counterexamples and witnesses are made of.
-/

namespace LibWorkflow.Sample

def target (kind : TargetAction) (action : ℤ) (level : UInt32) : Target :=
  ⟨"controller", "workflow", 1, 0, level, kind, action⟩

def request (kind : TargetAction) (action : ℤ) (level : UInt32) : Request :=
  Request.ofTargets (target kind action level) (target .reply (-1) 0)

/-- A request with a `SkipCtx`. -/
def skipRequest : Request := (request .defaultAction 0 0).setContext "ctx" (some .skip)

def returning (type : ResultType) : Action Unit :=
  .ofPerform "Sample" ∅ ∅ fun id env s => .ofResult env s ⟨id, type, none⟩

def skipping : Action Unit :=
  .ofPerform "Sample" ∅ ((∅ : Ordered.OrdMap String PutDefinition).insert "skip"
    ⟨"skip", "", "Sample", fun _ => true, false, false, true⟩) fun id env s =>
      { Outcome.ofResult env s ⟨id, .done, none⟩ with outputs := [("skip", some .skip)] }

def leadTo (target : ℤ) : OutputBinding := StateMachine.bindingTo 0 "" target ""

def single (type : ResultType) : StateMachine Unit :=
  ((StateMachine.new.init).addAction 0 (returning type)
    [leadTo Step.finish.id]).addInput ⟨"", 0, ""⟩

def chain : StateMachine Unit :=
  ((StateMachine.new.init.addAction 0 (returning .done) [leadTo 1]).addAction 1 (returning .done)
    [leadTo Step.finish.id]).addInput ⟨"", 0, ""⟩

/-- The session of `m` after some messages, each taken with all its calls. -/
def session (m : StateMachine Unit) (messages : List Message) : Config Unit :=
  m.system.play 30 messages (StateMachine.opened (request .defaultAction 0 0) ())

/-- The first call of a machine, and `n` calls of the engine. -/
def started (m : StateMachine Unit) (n : ℕ) : Config Unit :=
  m.system.advance n (.ofStep ⟨.ofRequest (request .defaultAction 0 0), (), []⟩
    (m.receive ⟨.ofRequest (request .defaultAction 0 0), (), []⟩ (.request (request .defaultAction 0 0))))

def query : Request :=
  Request.ofTargets ⟨"controller", "other", 2, 0, 0, .defaultAction, 0⟩ (target .reply (-1) 0)

def asking : Action Unit :=
  .ofPerform "Sample" ∅ ∅ fun id env s => Action.executeSyncRequest id env s (some query) query

def inquiry : StateMachine Unit :=
  (StateMachine.new.init.addAction 0 asking [leadTo Step.finish.id]).addInput ⟨"", 0, ""⟩

theorem inquiry_initialised : StateMachine.Initialised inquiry := .addInput (.addAction .refl _ _ _) _

theorem session_reachable (m : StateMachine Unit) (messages : List Message) :
    m.system.Reachable (StateMachine.opened (request .defaultAction 0 0) ()) (session m messages) :=
  .play (fun _ => trivial) (fun _ _ _ => trivial) .start

theorem session_completesAsync (m : StateMachine Unit) (requests : List Request) :
    m.system.Run StateMachine.CompletesAsync (StateMachine.opened (request .defaultAction 0 0) ())
      (session m (requests.map Message.request)) := by
  refine .play (fun _ _ h => nomatch h) (fun c message hmem result heq => ?_) .start
  cases heq
  simp at hmem

theorem session_admissible (m : StateMachine Unit) (requests : List Request)
    (hinterrupt : ∀ r ∈ requests, r.target.target ≠ .interrupt) :
    m.system.Run m.Admissible (StateMachine.opened (request .defaultAction 0 0) ())
      (session m (requests.map Message.request)) := by
  refine .play (fun _ => ⟨fun _ h => (nomatch h), fun _ h => (nomatch h)⟩)
    (fun c message hmem => ⟨?_, ?_⟩) .start
  · intro result heq
    cases heq
    simp at hmem
  · intro r heq hkind
    cases heq
    rw [List.mem_map] at hmem
    obtain ⟨r', hr', heq⟩ := hmem
    cases heq
    exact absurd hkind (hinterrupt _ hr')

theorem single_ownResults (type : ResultType) : (single type).OwnResults :=
  StateMachine.ownResults_init.addAction 0 (fun _ _ _ => rfl) (fun _ _ _ _ => rfl) _

theorem chain_ownResults : chain.OwnResults :=
  (StateMachine.ownResults_init.addAction 0 (fun _ _ _ => rfl) (fun _ _ _ _ => rfl) _).addAction 1
    (fun _ _ _ => rfl) (fun _ _ _ _ => rfl) _

theorem single_initialised (type : ResultType) : StateMachine.Initialised (single type) :=
  .addInput (.addAction .refl _ _ _) _

def waiting : World Unit := (session (single .wait) [.request (request .defaultAction 0 0)]).world

end LibWorkflow.Sample
