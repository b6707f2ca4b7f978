import Mathlib.Tactic.Common

/-!
# Updates in place

Code that changes a state step by step and may break off on the way, leaving what it has changed so far.
Whether an update breaks off does not depend on the state. `all` makes updates one after another, up to
the first that breaks off (`made`). If each of them works on a field of its own (`Independent`), then
together they leave the state as it is just when each of those made does (`spares_all_iff`).
-/

namespace InPlace

/-- What becomes of the state, and whether the update comes to its end. -/
structure Update (σ : Type) where
  apply : σ → σ
  completes : Bool

/-- A part of a state, which can be read and written. -/
structure Field (σ α : Type) where
  get : σ → α
  set : α → σ → σ
  get_set : ∀ a s, get (set a s) = a
  set_get : ∀ s, set (get s) s = s

namespace Update

variable {σ α : Type}

def assign (f : σ → σ) : Update σ := ⟨f, true⟩

def attempt (read : Option α) (write : α → σ → σ) : Update σ :=
  match read with
  | some a => ⟨write a, true⟩
  | none => ⟨id, false⟩

def andThen (u v : Update σ) : Update σ :=
  if u.completes then ⟨fun s => v.apply (u.apply s), v.completes⟩ else u

def all : List (Update σ) → Update σ
  | [] => assign id
  | u :: us => u.andThen (all us)

/-- The updates that are made: those before the first that breaks off, and that one. -/
def made : List (Update σ) → List (Update σ)
  | [] => []
  | u :: us => if u.completes then u :: made us else [u]

def onField (u : Update α) (f : Field σ α) : Update σ := ⟨fun s => f.set (u.apply (f.get s)) s, u.completes⟩

/-- An update of a new value, which takes the place of the old one before it begins. -/
def renew (u : Update α) (new : α) : Update (Option α) := ⟨fun _ => some (u.apply new), u.completes⟩

def result (u : Update σ) (s : σ) : Option σ := if u.completes then some (u.apply s) else none

/-- If the update breaks off, the state is as before. -/
def Spares (u : Update σ) (s : σ) : Prop := u.completes = false → u.apply s = s

/-! ### Results -/

@[simp] theorem result_assign (f : σ → σ) (s : σ) : (assign f).result s = some (f s) := rfl

@[simp] theorem result_attempt (read : Option α) (write : α → σ → σ) (s : σ) :
    (attempt read write).result s = read.map (write · s) := by
  cases read <;> rfl

@[simp] theorem result_andThen (u v : Update σ) (s : σ) : (u.andThen v).result s = (u.result s).bind v.result := by
  unfold andThen result
  cases hu : u.completes <;> simp [hu]

@[simp] theorem result_all_nil (s : σ) : (all []).result s = some s := rfl

@[simp] theorem result_all_cons (u : Update σ) (us : List (Update σ)) (s : σ) :
    (all (u :: us)).result s = (u.result s).bind (all us).result := result_andThen u (all us) s

@[simp] theorem result_onField (u : Update α) (f : Field σ α) (s : σ) :
    (u.onField f).result s = (u.result (f.get s)).map (f.set · s) := by
  unfold result onField
  cases u.completes <;> rfl

@[simp] theorem result_renew (u : Update α) (new : α) (old : Option α) :
    (u.renew new).result old = (u.result new).map some := by
  unfold result renew
  cases u.completes <;> rfl

theorem apply_of_result {u : Update σ} {s s' : σ} (h : u.result s = some s') : u.apply s = s' := by
  unfold result at h
  split_ifs at h
  exact Option.some.inj h

/-! ### Updates that break off -/

theorem completes_all (us : List (Update σ)) : (all us).completes = us.all completes := by
  induction us with
  | nil => rfl
  | cons u us ih =>
    rw [all, andThen, List.all_cons, ← ih]
    cases hu : u.completes
    · simp [hu]
    · rfl

theorem apply_all (us : List (Update σ)) (s : σ) : (all us).apply s = (made us).foldl (fun s u => u.apply s) s := by
  induction us generalizing s with
  | nil => rfl
  | cons u us ih =>
    rw [all, andThen, made]
    cases u.completes
    · rfl
    · exact ih (u.apply s)

theorem forall_made_cons {P : Update σ → Prop} {u : Update σ} {us : List (Update σ)} :
    (∀ v ∈ made (u :: us), P v) ↔ P u ∧ (u.completes = true → ∀ v ∈ made us, P v) := by
  rw [made]
  split_ifs with hu
  · simp [hu]
  · simp [hu]

/-- What comes after an update that breaks off is not made. -/
theorem made_append {us : List (Update σ)} (h : ¬∀ u ∈ us, u.completes = true) (vs : List (Update σ)) :
    made (us ++ vs) = made us := by
  induction us with
  | nil => exact absurd (List.forall_mem_nil _) h
  | cons u us ih =>
    rw [List.cons_append, made, made]
    split_ifs with hu
    · rw [ih fun hall => h (List.forall_mem_cons.mpr ⟨hu, hall⟩)]
    · rfl

theorem apply_onField_eq_iff (u : Update α) (f : Field σ α) (s : σ) :
    (u.onField f).apply s = s ↔ u.apply (f.get s) = f.get s := by
  constructor
  · intro heq
    rw [← f.get_set (u.apply (f.get s)) s]
    exact congrArg f.get heq
  · intro heq
    show f.set (u.apply (f.get s)) s = s
    rw [heq, f.set_get]

/-! ### Loops that read an item and write what was read -/

section Loop

variable {ι β : Type} (read : ι → Option (Option β)) (write : β → σ → σ)

/-- What a loop writes: of each item what is read, nothing of an item that is passed over, up to the first
that cannot be read. -/
def written : List ι → List β
  | [] => []
  | item :: items =>
    match read item with
    | some entry => entry.toList ++ written items
    | none => []

def turn (item : ι) : Update σ := .attempt (read item) fun entry s => entry.elim s (write · s)

theorem apply_turns (items : List ι) (s : σ) :
    (all (items.map (turn read write))).apply s = (written read items).foldl (fun s e => write e s) s := by
  induction items generalizing s with
  | nil => rfl
  | cons item items ih =>
    rw [List.map_cons, all, andThen, written, turn]
    cases hread : read item with
    | none => rfl
    | some entry => cases entry <;> exact ih _

theorem completes_turns (items : List ι) :
    (all (items.map (turn read write))).completes = true ↔ ∀ item ∈ items, (read item).isSome = true := by
  rw [completes_all, List.all_map, List.all_eq_true]
  refine forall₂_congr fun item _ => ?_
  unfold Function.comp turn attempt
  cases read item <;> simp

end Loop

/-- Each update works on a field that those after it leave alone. -/
inductive Independent : List (Update σ) → Prop
  | nil : Independent []
  | cons {β : Type} (f : Field σ β) (u : Update β) {us : List (Update σ)}
      (hframe : ∀ v ∈ us, ∀ s, f.get (v.apply s) = f.get s) (h : Independent us) : Independent (u.onField f :: us)

theorem get_foldl {us : List (Update σ)} {f : Field σ α} (hframe : ∀ v ∈ us, ∀ s, f.get (v.apply s) = f.get s)
    (s : σ) : f.get (us.foldl (fun s u => u.apply s) s) = f.get s := by
  induction us generalizing s with
  | nil => rfl
  | cons u us ih =>
    rw [List.foldl_cons, ih fun v hv => hframe v (List.mem_cons_of_mem _ hv)]
    exact hframe u List.mem_cons_self s

theorem made_subset (us : List (Update σ)) : made us ⊆ us := by
  induction us with
  | nil => exact fun _ h => h
  | cons u us ih =>
    rw [made]
    split_ifs
    · exact List.cons_subset_cons u ih
    · exact List.cons_subset_cons u (List.nil_subset us)

/-- What independent updates do to their fields cannot cancel out. -/
theorem Independent.foldl_eq_iff {us : List (Update σ)} (h : Independent us) (s : σ) :
    (made us).foldl (fun s u => u.apply s) s = s ↔ ∀ u ∈ made us, u.apply s = s := by
  induction h generalizing s with
  | nil => simp [made]
  | @cons β f u us hframe _ ih =>
    rw [made]
    split_ifs
    · rw [List.foldl_cons, List.forall_mem_cons]
      constructor
      · intro heq
        have hkeep : ∀ v ∈ made us, ∀ s, f.get (v.apply s) = f.get s := fun v hv => hframe v (made_subset us hv)
        have hget := get_foldl hkeep ((u.onField f).apply s)
        rw [heq, onField, f.get_set] at hget
        have hfirst := (apply_onField_eq_iff u f s).mpr hget.symm
        rw [hfirst] at heq
        exact ⟨hfirst, (ih s).mp heq⟩
      · rintro ⟨hfirst, hrest⟩
        rw [hfirst]
        exact (ih s).mpr hrest
    · simp

/-- **All or nothing.** Independent updates that break off leave the state as it is, if and only if each
of those that are made does. -/
theorem Independent.spares_all_iff {us : List (Update σ)} (h : Independent us) (s : σ) :
    (all us).Spares s ↔ (∀ u ∈ us, u.completes = true) ∨ ∀ u ∈ made us, u.apply s = s := by
  unfold Spares
  rw [completes_all, apply_all, h.foldl_eq_iff, ← List.all_eq_true]
  cases us.all completes <;> simp

end Update

end InPlace
