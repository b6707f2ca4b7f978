import Mathlib.Data.List.Perm.Basic

/-!
# Event loops

An event loop takes handlers from any thread and runs them one after the other, on the threads that serve it, in
an order of its own. Once it is stopped it runs none, but still takes them. What was posted is at any time what
was run and what waits: this is a field of the loop (`conserved`).
-/

namespace EventLoop

/-- The handlers that were posted, those that were run, and those that wait, the oldest first. -/
structure Loop (η : Type) where
  posted : List η
  ran : List η
  waiting : List η
  stopped : Bool
  conserved : posted.Perm (ran ++ waiting)

namespace Loop

variable {η : Type} (l : Loop η)

def new (η : Type) : Loop η := ⟨[], [], [], false, .nil⟩

def post (h : η) : Loop η where
  posted := l.posted ++ [h]
  ran := l.ran
  waiting := l.waiting ++ [h]
  stopped := l.stopped
  conserved := by
    rw [← List.append_assoc]
    exact l.conserved.append_right [h]

def take (i : ℕ) (h : i < l.waiting.length) : Loop η where
  posted := l.posted
  ran := l.ran ++ [l.waiting[i]]
  waiting := l.waiting.eraseIdx i
  stopped := l.stopped
  conserved := by
    rw [List.append_assoc]
    exact l.conserved.trans ((List.getElem_cons_eraseIdx_perm h).symm.append_left l.ran)

def stop : Loop η := { l with stopped := true }

def reset : Loop η := { l with stopped := false }

end Loop

end EventLoop
