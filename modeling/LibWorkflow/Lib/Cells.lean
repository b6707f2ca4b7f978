import Mathlib.Data.List.Induction
import Mathlib.Logic.Function.Basic

/-!
# Cells written with optional values

Cells that may be empty are written one after another, some writes carrying no value. `overwrite` puts
whatever is written, `latest` is the last value written. A store that overwrites holds the latest value of
every cell, after each write, exactly if no empty write meets a cell that was given a value before
(`overwrites_latest_iff`).
-/

namespace Cells

variable {κ α : Type} [DecidableEq κ]

/-- A write without a value empties the cell. -/
def overwrite (f : κ → Option α) (w : κ × Option α) : κ → Option α := Function.update f w.1 w.2

def latest (writes : List (κ × Option α)) (k : κ) : Option α :=
  (writes.filterMap fun w => if w.1 = k then w.2 else none).getLast?

theorem latest_append_singleton (writes : List (κ × Option α)) (w : κ × Option α) (k : κ) :
    latest (writes ++ [w]) k = if w.1 = k then w.2.or (latest writes k) else latest writes k := by
  obtain ⟨j, v⟩ := w
  unfold latest
  rw [List.filterMap_append]
  by_cases hj : j = k
  · cases v <;> simp [hj]
  · simp [hj]

theorem latest_eq_none_iff {writes : List (κ × Option α)} {k : κ} :
    latest writes k = none ↔ ∀ v, (k, some v) ∉ writes := by
  unfold latest
  rw [List.getLast?_eq_none_iff, List.filterMap_eq_nil_iff]
  constructor
  · intro h v hmem
    have hnone := h _ hmem
    rw [if_pos rfl] at hnone
    cases hnone
  · rintro h ⟨j, v⟩ hmem
    by_cases hj : j = k
    · subst hj
      cases v with
      | none => exact if_pos rfl
      | some v => exact absurd hmem (h v)
    · exact if_neg hj

/-- An overwriting store holds the latest values after every one of some writes if and only if none of
them is empty and goes to a cell that was given a value before. -/
theorem overwrites_latest_iff {past writes : List (κ × Option α)} :
    (∀ pre, pre <+: writes → pre.foldl overwrite (latest past) = latest (past ++ pre)) ↔
      ∀ pre k post, writes = pre ++ (k, none) :: post → ∀ v, (k, some v) ∉ past ++ pre := by
  constructor
  · rintro h pre k post rfl
    have hbefore := h pre (List.prefix_append _ _)
    have hafter := h (pre ++ [(k, none)]) ⟨post, by rw [List.append_assoc, List.singleton_append]⟩
    rw [List.foldl_append, hbefore, ← List.append_assoc] at hafter
    have hcell := congrFun hafter k
    rw [latest_append_singleton, if_pos rfl, Option.none_or, List.foldl_cons, List.foldl_nil, overwrite,
      Function.update_self] at hcell
    exact latest_eq_none_iff.mp hcell.symm
  · intro h pre
    induction pre using List.reverseRecOn with
    | nil => exact fun _ => congrArg latest (List.append_nil past).symm
    | append_singleton pre w ih =>
      rintro ⟨post, hwrites⟩
      rw [List.append_assoc, List.singleton_append] at hwrites
      rw [List.foldl_append, ih ⟨_, hwrites⟩, ← List.append_assoc]
      funext k
      rw [latest_append_singleton, List.foldl_cons, List.foldl_nil, overwrite, Function.update_apply]
      obtain ⟨j, v⟩ := w
      by_cases hj : k = j
      · subst hj
        rw [if_pos rfl, if_pos rfl]
        cases v with
        | none => rw [Option.none_or, latest_eq_none_iff.mpr (h pre k post hwrites.symm)]
        | some v => rfl
      · rw [if_neg hj, if_neg (Ne.symm hj)]

end Cells
