import LibWorkflow.Lib.Ordered
import Mathlib.Data.List.Induction

/-!
# Registries

A registry is a map that is written by a log: `bind` gives a key to an owner, whoever had it, and `drop` takes
it from whoever has it. A key belongs to the last owner it was given to, unless it was dropped since
(`find?_replay_eq_some_iff`).
-/

namespace Registry

open Ordered

variable {κ α : Type}

inductive Entry (κ α : Type) where
  | bind (key : κ) (owner : α)
  | drop (key : κ)

namespace Entry

def key : Entry κ α → κ
  | bind k _ => k
  | drop k => k

def owner? : Entry κ α → Option α
  | bind _ a => some a
  | drop _ => none

end Entry

variable [LinearOrder κ]

def Entry.apply (m : OrdMap κ α) : Entry κ α → OrdMap κ α
  | .bind k a => m.insert k a
  | .drop k => m.erase k

def replay (log : List (Entry κ α)) : OrdMap κ α := log.foldl Entry.apply ∅

variable {log : List (Entry κ α)} {e : Entry κ α} {k : κ} {a : α}

theorem replay_append (log log' : List (Entry κ α)) :
    replay (log ++ log') = log'.foldl Entry.apply (replay log) := List.foldl_append

theorem find?_apply_of_ne (h : e.key ≠ k) (m : OrdMap κ α) : (e.apply m).find? k = m.find? k := by
  cases e with
  | bind j b => exact OrdMap.find?_insert_of_ne m b (Ne.symm h)
  | drop j => exact (OrdMap.find?_erase m j k).trans (if_neg (Ne.symm h))

theorem find?_apply_of_eq (h : e.key = k) (m : OrdMap κ α) : (e.apply m).find? k = e.owner? := by
  subst h
  cases e with
  | bind j b => exact OrdMap.find?_insert_self m j b
  | drop j => exact (OrdMap.find?_erase m j j).trans (if_pos rfl)

/-- The entries that are about other keys can be left out. -/
theorem find?_replay_append_of_ne {log' : List (Entry κ α)} (h : ∀ e ∈ log', e.key ≠ k) :
    (replay (log ++ log')).find? k = (replay log).find? k := by
  rw [replay_append]
  generalize replay log = m
  induction log' generalizing m with
  | nil => rfl
  | cons e log' ih =>
    obtain ⟨he, hlog'⟩ := List.forall_mem_cons.mp h
    rw [List.foldl_cons, ih hlog', find?_apply_of_ne he]

/-- **Ownership.** The last entry about the key gave it to its owner. -/
theorem find?_replay_eq_some_iff : (replay log).find? k = some a ↔
    ∃ before after, log = before ++ .bind k a :: after ∧ ∀ e ∈ after, e.key ≠ k := by
  constructor
  · induction log using List.reverseRecOn with
    | nil => exact fun h => by cases h
    | append_singleton log e ih =>
      intro h
      rw [replay_append, List.foldl_cons, List.foldl_nil] at h
      by_cases hkey : e.key = k
      · rw [find?_apply_of_eq hkey] at h
        cases e with
        | bind j b =>
          cases h
          cases hkey
          exact ⟨log, [], rfl, fun _ h => absurd h List.not_mem_nil⟩
        | drop j => cases h
      · rw [find?_apply_of_ne hkey] at h
        obtain ⟨before, after, rfl, hafter⟩ := ih h
        refine ⟨before, after ++ [e], by rw [List.append_assoc, List.cons_append], ?_⟩
        exact List.forall_mem_append.mpr ⟨hafter, List.forall_mem_singleton.mpr hkey⟩
  · rintro ⟨before, after, rfl, hafter⟩
    rw [← List.singleton_append, ← List.append_assoc, find?_replay_append_of_ne hafter, replay_append]
    exact find?_apply_of_eq (e := .bind k a) rfl (replay before)

end Registry
