import Mathlib.Order.WellFounded

/-!
# Dataflow equations

Each node of a graph has a value, which is computed from the values of the nodes that lead to it. Where no
path goes back for ever there is one solution and no other (`existsUnique_solution`); and whoever computes the
nodes one at a time, each after the nodes that lead to it, computes the solution (`Evaluates.eq_solution`), in
whatever order.
-/

namespace Dataflow

/-- The equations of a graph: the value of a node, of which no more is read than the nodes that lead to it. -/
structure Equations (ι V : Type) where
  edge : ι → ι → Prop
  eval : ι → (ι → V) → V
  reads : ∀ a x y, (∀ p, edge p a → x p = y p) → eval a x = eval a y

variable {ι V : Type} {E : Equations ι V}

def Equations.Solution (E : Equations ι V) (x : ι → V) : Prop := ∀ a, x a = E.eval a x

/-- The nodes of `done` were computed: those that lead to one of them are among them, and each has the value
its equation gives. -/
structure Equations.Evaluates (E : Equations ι V) (done : ι → Prop) (x : ι → V) : Prop where
  closed : ∀ a, done a → ∀ p, E.edge p a → done p
  value : ∀ a, done a → x a = E.eval a x

namespace Equations

variable {done done' : ι → Prop} {x y : ι → V}

theorem Solution.evaluates (h : E.Solution x) : E.Evaluates (fun _ => True) x :=
  ⟨fun _ _ _ _ => trivial, fun a _ => h a⟩

theorem Evaluates.none (x : ι → V) : E.Evaluates (fun _ => False) x := ⟨fun _ h => h.elim, fun _ h => h.elim⟩

/-- Two evaluations agree on the nodes both have computed. -/
theorem Evaluates.agree (hwf : WellFounded E.edge) (hx : E.Evaluates done x) (hy : E.Evaluates done' y) {a : ι}
    (hdone : done a) (hdone' : done' a) : x a = y a := by
  induction a using hwf.induction with
  | _ a ih =>
    rw [hx.value a hdone, hy.value a hdone']
    exact E.reads a x y fun p hp => ih p hp (hx.closed a hdone p hp) (hy.closed a hdone' p hp)

theorem Evaluates.eq_solution (hwf : WellFounded E.edge) (hx : E.Evaluates done x) (hy : E.Solution y) {a : ι}
    (hdone : done a) : x a = y a := hx.agree hwf hy.evaluates hdone trivial

theorem Evaluates.step (hx : E.Evaluates done x) {a : ι} (hpred : ∀ p, E.edge p a → done p)
    (hkept : ∀ p, done p → y p = x p) (hvalue : y a = E.eval a x) :
    E.Evaluates (fun p => done p ∨ p = a) y := by
  have hread : ∀ b, (∀ p, E.edge p b → done p) → E.eval b y = E.eval b x := fun b hb =>
    E.reads b y x fun p hp => hkept p (hb p hp)
  refine ⟨?_, ?_⟩
  · rintro b (hb | rfl) p hp
    · exact .inl (hx.closed b hb p hp)
    · exact .inl (hpred p hp)
  · rintro b (hb | rfl)
    · rw [hkept b hb, hread b (hx.closed b hb)]
      exact hx.value b hb
    · rw [hread b hpred]
      exact hvalue

theorem Evaluates.congr (hx : E.Evaluates done x) (hdone : ∀ a, done' a ↔ done a) (hkept : ∀ p, done p → y p = x p) :
    E.Evaluates done' y := by
  have hdone : done' = done := funext fun a => propext (hdone a)
  subst hdone
  refine ⟨hx.closed, fun a ha => ?_⟩
  rw [hkept a ha, hx.value a ha]
  exact E.reads a x y fun p hp => (hkept p (hx.closed a ha p hp)).symm

/-- **The solution.** Where no path goes back for ever, the equations have one solution and no other. -/
theorem existsUnique_solution [Inhabited V] (hwf : WellFounded E.edge) : ∃! x, E.Solution x := by
  classical
  let values : ι → V := hwf.fix fun a before => E.eval a fun p => if h : E.edge p a then before p h else default
  have hsolution : E.Solution values := by
    intro a
    show hwf.fix _ a = _
    rw [hwf.fix_eq]
    exact E.reads a _ _ fun p hp => dif_pos hp
  exact ⟨values, hsolution, fun y hy => funext fun a => (hy.evaluates.eq_solution hwf hsolution trivial)⟩

end Equations

end Dataflow
