import Mathlib.Data.Nat.Notation
import Mathlib.Tactic.Common

/-!
# Reactive systems

A reactive system computes by itself, one internal step after another, and takes inputs from outside
in the states that accept them. `Run guard start c` says that `c` is reached from `start` by
transitions that all meet `guard`, a condition on the state before the transition and on the input it
takes. `Run.invariant` is the induction on runs; `exists_settled` and `not_settles_of_recurs` are the
two rules for the internal steps: a measure that decreases makes them stop, a set of unsettled states
that recurs keeps them going. `observed` adds a history to the states, for what is to be said about the past
of a run.
-/

namespace Reactive

/-- Internal steps and inputs, each undefined where the system does not take it. -/
structure System (σ ι : Type) where
  next : σ → Option σ
  accept : σ → ι → Option σ

namespace System

variable {σ ι : Type} (S : System σ ι)

/-- One transition: an internal step (label `none`) or an input. -/
inductive Trans : σ → Option ι → σ → Prop
  | internal {c c' : σ} (hnext : S.next c = some c') : Trans c none c'
  | input {c c' : σ} {i : ι} (haccept : S.accept c i = some c') : Trans c (some i) c'

/-- The states reached from `start` by transitions that all meet `guard`. -/
inductive Run (guard : σ → Option ι → Prop) (start : σ) : σ → Prop
  | start : Run guard start start
  | step {c c' : σ} {label : Option ι} (hrun : Run guard start c) (hguard : guard c label)
      (htrans : S.Trans c label c') : Run guard start c'

abbrev Reachable (start : σ) : σ → Prop := S.Run (fun _ _ => True) start

def step (c : σ) : Option ι → Option σ
  | none => S.next c
  | some i => S.accept c i

variable {S} {guard guard' : σ → Option ι → Prop} {start c c' : σ}

theorem step_eq_some_iff {label : Option ι} : S.step c label = some c' ↔ S.Trans c label c' := by
  constructor
  · intro h
    cases label with
    | none => exact .internal h
    | some i => exact .input h
  · intro h
    cases h with
    | internal hnext => exact hnext
    | input haccept => exact haccept

/-- What holds at the start and is kept by every guarded transition holds along the run. -/
theorem Run.invariant {I : σ → Prop} (hrun : S.Run guard start c) (hstart : I start)
    (hstep : ∀ c label c', I c → guard c label → S.Trans c label c' → I c') : I c := by
  induction hrun with
  | start => exact hstart
  | step _ hguard htrans ih => exact hstep _ _ _ ih hguard htrans

/-- The invariant rule split by the kind of transition. -/
theorem Run.invariant_cases {Inv : σ → Prop} (hrun : S.Run guard start c) (hstart : Inv start)
    (hnext : ∀ c c', Inv c → guard c none → S.next c = some c' → Inv c')
    (haccept : ∀ c i c', Inv c → guard c (some i) → S.accept c i = some c' → Inv c') : Inv c :=
  hrun.invariant hstart fun _ _ _ hinv hguard htrans => by
    cases htrans with
    | internal h => exact hnext _ _ hinv hguard h
    | input h => exact haccept _ _ _ hinv hguard h

theorem Run.mono (h : ∀ c label, guard c label → guard' c label) (hrun : S.Run guard start c) :
    S.Run guard' start c := by
  induction hrun with
  | start => exact .start
  | step _ hguard htrans ih => exact ih.step (h _ _ hguard) htrans

theorem Run.trans {c'' : σ} (hrun : S.Run guard start c) (hrest : S.Run guard c c'') : S.Run guard start c'' := by
  induction hrest with
  | start => exact hrun
  | step _ hguard htrans ih => exact ih.step hguard htrans

theorem Run.internal (hrun : S.Run guard start c) (hguard : guard c none)
    (hnext : S.next c = some c') : S.Run guard start c' := hrun.step hguard (.internal hnext)

theorem Run.input {i : ι} (hrun : S.Run guard start c) (hguard : guard c (some i))
    (haccept : S.accept c i = some c') : S.Run guard start c' := hrun.step hguard (.input haccept)

/-! ### Internal steps -/

variable (S)

/-- Take up to `n` internal steps, stopping where there is none. -/
def advance : ℕ → σ → σ
  | 0, c => c
  | n + 1, c =>
    match S.next c with
    | none => c
    | some c' => advance n c'

/-- The internal steps from `c` come to an end. -/
def Settles (c : σ) : Prop := ∃ n, S.next (S.advance n c) = none

variable {S}

@[simp] theorem advance_zero (c : σ) : S.advance 0 c = c := rfl

theorem advance_of_settled (h : S.next c = none) (n : ℕ) : S.advance n c = c := by
  cases n with
  | zero => rfl
  | succ n => rw [advance, h]

theorem advance_succ_of_next (h : S.next c = some c') (n : ℕ) :
    S.advance (n + 1) c = S.advance n c' := by
  rw [advance, h]

theorem advance_add (m n : ℕ) (c : σ) : S.advance (m + n) c = S.advance n (S.advance m c) := by
  induction m generalizing c with
  | zero => rw [Nat.zero_add, advance_zero]
  | succ m ih =>
    rw [Nat.succ_add, advance, advance]
    cases hnext : S.next c with
    | none => exact (advance_of_settled hnext n).symm
    | some c' => exact ih c'

/-- What holds up to a settled state holds of all the internal steps. -/
theorem forall_advance {P : σ → Prop} {k : ℕ} (h : ∀ n ≤ k, P (S.advance n c))
    (hsettled : S.next (S.advance k c) = none) (n : ℕ) : P (S.advance n c) := by
  by_cases hn : n ≤ k
  · exact h n hn
  · obtain ⟨j, rfl⟩ := Nat.exists_eq_add_of_le (Nat.le_of_not_le hn)
    rw [advance_add, advance_of_settled hsettled]
    exact h k (Nat.le_refl k)

theorem advance_unique {m n : ℕ} (hm : S.next (S.advance m c) = none) (hn : S.next (S.advance n c) = none) :
    S.advance m c = S.advance n c := by
  rcases Nat.le_total m n with h | h
  · obtain ⟨k, rfl⟩ := Nat.exists_eq_add_of_le h
    rw [advance_add, advance_of_settled hm]
  · obtain ⟨k, rfl⟩ := Nat.exists_eq_add_of_le h
    rw [advance_add, advance_of_settled hn]

theorem Settles.advance (h : S.Settles c) (k : ℕ) : S.Settles (S.advance k c) := by
  obtain ⟨n, hsettled⟩ := h
  refine ⟨n, ?_⟩
  rw [← advance_add, Nat.add_comm, advance_add, advance_of_settled hsettled]
  exact hsettled

theorem Run.advance_of {n : ℕ} (hrun : S.Run guard start c)
    (hguard : ∀ k < n, guard (S.advance k c) none) : S.Run guard start (S.advance n c) := by
  induction n generalizing c with
  | zero => exact hrun
  | succ n ih =>
    rw [System.advance]
    cases hnext : S.next c with
    | none => exact hrun
    | some c' =>
      refine ih (hrun.internal (hguard 0 (Nat.succ_pos n)) hnext) fun k hk => ?_
      rw [← advance_succ_of_next hnext]
      exact hguard (k + 1) (Nat.succ_lt_succ hk)

theorem Run.advance (hguard : ∀ c, guard c none) (hrun : S.Run guard start c) (n : ℕ) :
    S.Run guard start (S.advance n c) := hrun.advance_of fun _ _ => hguard _

/-- Take the inputs of a list one after the other, each followed by up to `n` internal steps. -/
def play (S : System σ ι) (n : ℕ) : List ι → σ → σ
  | [], c => c
  | i :: rest, c =>
    match S.accept c i with
    | none => c
    | some c' => play S n rest (S.advance n c')

theorem Run.play {n : ℕ} {inputs : List ι} (hnext : ∀ c, guard c none)
    (haccept : ∀ c, ∀ i ∈ inputs, guard c (some i)) (hrun : S.Run guard start c) :
    S.Run guard start (S.play n inputs c) := by
  induction inputs generalizing c with
  | nil => exact hrun
  | cons i rest ih =>
    rw [System.play]
    cases htaken : S.accept c i with
    | none => exact hrun
    | some c' =>
      have htail : ∀ c, ∀ j ∈ rest, guard c (some j) := fun c j hj => haccept c j (.tail i hj)
      exact ih htail (Run.advance hnext (hrun.input (haccept c i (.head rest)) htaken) n)

/-- **Termination.** A measure that every internal step from the invariant decreases brings the
system to a settled state of the invariant. -/
theorem exists_settled {Inv : σ → Prop} (measure : σ → ℕ)
    (hstep : ∀ c c', Inv c → S.next c = some c' → Inv c' ∧ measure c' < measure c) (hinv : Inv c) :
    ∃ n, S.next (S.advance n c) = none ∧ Inv (S.advance n c) := by
  induction hm : measure c using Nat.strongRecOn generalizing c with
  | _ k ih =>
    cases hnext : S.next c with
    | none => exact ⟨0, hnext, hinv⟩
    | some c' =>
      obtain ⟨hinv', hlt⟩ := hstep c c' hinv hnext
      obtain ⟨n, hsettled, hend⟩ := ih (measure c') (hm ▸ hlt) hinv' rfl
      refine ⟨n + 1, ?_, ?_⟩
      · rw [advance_succ_of_next hnext]; exact hsettled
      · rw [advance_succ_of_next hnext]; exact hend

/-- **Divergence.** If from every state of `P`, none of them settled, the internal steps come back to
`P`, then they never end. -/
theorem not_settles_of_recurs {P : σ → Prop} (hunsettled : ∀ c, P c → S.next c ≠ none)
    (hrecurs : ∀ c, P c → ∃ n, P (S.advance (n + 1) c)) (hP : P c) : ¬S.Settles c := by
  have hlater : ∀ n, ∃ k, n ≤ k ∧ P (S.advance k c) := by
    intro n
    induction n with
    | zero => exact ⟨0, Nat.le_refl 0, hP⟩
    | succ n ih =>
      obtain ⟨k, hk, hPk⟩ := ih
      obtain ⟨j, hPj⟩ := hrecurs _ hPk
      exact ⟨k + (j + 1), by omega, by rw [advance_add]; exact hPj⟩
  rintro ⟨n, hsettled⟩
  obtain ⟨k, hk, hPk⟩ := hlater n
  obtain ⟨j, rfl⟩ := Nat.exists_eq_add_of_le hk
  rw [advance_add, advance_of_settled hsettled] at hPk
  exact hunsettled _ hPk hsettled

/-! ### Histories -/

variable {η : Type} {record : σ → Option ι → η → η}

/-- The system with a history: `record` adds to it at each transition, from the state before and the
input. -/
def observed (S : System σ ι) (record : σ → Option ι → η → η) : System (σ × η) ι where
  next x := (S.next x.1).map fun c' => (c', record x.1 none x.2)
  accept x i := (S.accept x.1 i).map fun c' => (c', record x.1 (some i) x.2)

theorem observed_trans {x y : σ × η} {label : Option ι} :
    (S.observed record).Trans x label y ↔ S.Trans x.1 label y.1 ∧ y.2 = record x.1 label x.2 := by
  constructor
  · intro h
    cases h with
    | internal hnext =>
      obtain ⟨c', hc', rfl⟩ := Option.map_eq_some_iff.mp hnext
      exact ⟨.internal hc', rfl⟩
    | input haccept =>
      obtain ⟨c', hc', rfl⟩ := Option.map_eq_some_iff.mp haccept
      exact ⟨.input hc', rfl⟩
  · rintro ⟨h, hhistory⟩
    cases h with
    | internal hnext => exact .internal (Option.map_eq_some_iff.mpr ⟨y.1, hnext, by rw [← hhistory]⟩)
    | input haccept => exact .input (Option.map_eq_some_iff.mpr ⟨y.1, haccept, by rw [← hhistory]⟩)

theorem Run.source {guard : σ × η → Option ι → Prop} {x y : σ × η}
    (hrun : (S.observed record).Run guard x y) : S.Reachable x.1 y.1 := by
  induction hrun with
  | start => exact .start
  | step _ _ htrans ih => exact ih.step trivial (observed_trans.mp htrans).1

/-- Every run has a history. -/
theorem Run.exists_history (hrun : S.Run guard start c) (h : η) :
    ∃ h', (S.observed record).Run (fun x label => guard x.1 label) (start, h) (c, h') := by
  induction hrun with
  | start => exact ⟨h, .start⟩
  | step _ hguard htrans ih =>
    obtain ⟨h', hrun⟩ := ih
    exact ⟨_, hrun.step hguard (observed_trans.mpr ⟨htrans, rfl⟩)⟩

end System

end Reactive
