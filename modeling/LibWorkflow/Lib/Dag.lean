import Mathlib.Algebra.Order.BigOperators.Group.Finset
import Mathlib.Logic.Relation
import Mathlib.Order.WellFoundedSet

/-!
# Walks over an acyclic graph

A scheduler walks over a graph: it keeps a set of active nodes, performs one of them at a time, and then
activates successors of it. `Ahead` is what keeps a walk from going backwards: no active node leads to a
performed one. `exists_weight` bounds walks: on a finite acyclic graph a node can be given a weight that
pays for all of its successors (`sum_lt_of_step`).
-/

namespace Dag

open Relation

variable {α : Type} {edge : α → α → Prop}

def Acyclic (edge : α → α → Prop) : Prop := ∀ a, ¬TransGen edge a a

theorem Acyclic.not_reaches_of_edge (h : Acyclic edge) {a b : α} (hab : edge a b) :
    ¬ReflTransGen edge b a := fun hba => h a (TransGen.head' hab hba)

def Ahead (edge : α → α → Prop) (active performed : α → Prop) : Prop :=
  ∀ a, active a → ∀ q, performed q → ¬ReflTransGen edge a q

namespace Ahead

variable {active active' performed performed' : α → Prop} {x : α}

theorem mono (h : Ahead edge active performed) (hactive : ∀ a, active' a → active a)
    (hperformed : ∀ q, performed' q → performed q) : Ahead edge active' performed' :=
  fun a ha q hq => h a (hactive a ha) q (hperformed q hq)

theorem not_performed (h : Ahead edge active performed) (hx : active x) : ¬performed x :=
  fun hq => h x hx x hq .refl

/-- A node all of whose predecessors were performed is led to by no other active node. -/
theorem minimal (h : Ahead edge active performed) (hpred : ∀ p, edge p x → performed p) {r : α}
    (hr : active r) (hne : r ≠ x) : ¬ReflTransGen edge r x := by
  intro hreach
  rcases ReflTransGen.cases_tail hreach with heq | ⟨p, hrp, hpx⟩
  · exact hne heq.symm
  · exact h r hr p (hpred p hpx) hrp

theorem successor (h : Ahead edge active performed) (hacyclic : Acyclic edge) (hx : active x) {y : α}
    (hxy : edge x y) {q : α} (hq : performed q ∨ q = x) : ¬ReflTransGen edge y q := by
  rcases hq with hq | rfl
  · exact fun hyq => h x hx q hq (hyq.head hxy)
  · exact hacyclic.not_reaches_of_edge hxy

end Ahead

/-! ### Weights -/

theorem Acyclic.wellFounded (h : Acyclic edge) {sources : Set α} (hfin : sources.Finite)
    (hsources : ∀ a b, edge a b → a ∈ sources) : WellFounded (fun b a => edge a b) := by
  have hstrict : IsStrictOrder α (fun b a => TransGen edge a b) :=
    { irrefl := h
      trans := fun _ _ _ hab hbc => hbc.trans hab }
  have hon := hfin.wellFoundedOn (r := fun b a => TransGen edge a b)
  refine ⟨fun a => ?_⟩
  by_cases ha : a ∈ sources
  · refine hon.induction ha fun x _ ih => ⟨x, fun y hxy => ?_⟩
    by_cases hy : y ∈ sources
    · exact ih y hy (.single hxy)
    · exact ⟨y, fun z hyz => absurd (hsources y z hyz) hy⟩
  · exact ⟨a, fun b hab => absurd (hsources a b hab) ha⟩

/-- **Weights.** On a finite acyclic graph there are weights such that a node weighs one more than its
successors together. -/
theorem Acyclic.exists_weight (h : Acyclic edge) {sources : Set α} (hfin : sources.Finite)
    (hsources : ∀ a b, edge a b → a ∈ sources) {successors : α → Finset α}
    (hsuccessors : ∀ a b, b ∈ successors a → edge a b) :
    ∃ weight : α → ℕ, ∀ a, weight a = 1 + ∑ b ∈ successors a, weight b := by
  have hwf := h.wellFounded hfin hsources
  refine ⟨hwf.fix fun a rec => 1 + ∑ b ∈ (successors a).attach, rec b (hsuccessors a b b.2), fun a => ?_⟩
  rw [hwf.fix_eq]
  exact congrArg (1 + ·) (Finset.sum_attach (successors a) _)

variable [DecidableEq α]

/-- One step of a walk takes weight away: a node is left and some of its successors come in. -/
theorem sum_lt_of_step {weight : α → ℕ} {successors : α → Finset α}
    (hweight : ∀ a, weight a = 1 + ∑ b ∈ successors a, weight b) {active active' : Finset α} {x : α}
    (hstep : ∀ a ∈ active', a ∈ active ∨ a ∈ successors x) :
    ∑ a ∈ active', weight a < (∑ a ∈ active, weight a) + weight x := by
  have hsubset : active' ⊆ active ∪ successors x := fun a ha => Finset.mem_union.mpr (hstep a ha)
  have hle : ∑ a ∈ active', weight a ≤ ∑ a ∈ active ∪ successors x, weight a :=
    Finset.sum_le_sum_of_subset hsubset
  have hunion : (∑ a ∈ active ∪ successors x, weight a) + ∑ a ∈ active ∩ successors x, weight a =
      (∑ a ∈ active, weight a) + ∑ a ∈ successors x, weight a := Finset.sum_union_inter
  have hx := hweight x
  omega

end Dag
