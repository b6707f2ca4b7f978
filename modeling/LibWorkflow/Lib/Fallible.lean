import Mathlib.Data.List.Forall2

/-!
# Computations that may fail

`Except ε` as the result of code that may throw: when a sequence succeeds, and the induction rules
for a loop (`List.foldlM`). `foldlM_invariant` is for a loop known to have succeeded, `foldlM_simulates`
relates such a loop to one that cannot fail, and `foldlM_succeeds` shows that a loop succeeds. A map
that may fail (`List.mapM` in `Option`) succeeds as a relation between its two lists.
-/

namespace Fallible

variable {ε α β : Type}

@[simp] theorem ok_bind (a : α) (f : α → Except ε β) : (Except.ok a >>= f) = f a := rfl

theorem bind_eq_ok {x : Except ε α} {f : α → Except ε β} {b : β} :
    x >>= f = .ok b ↔ ∃ a, x = .ok a ∧ f a = .ok b := by
  cases x with
  | error e => exact ⟨(nomatch ·), fun ⟨_, h, _⟩ => nomatch h⟩
  | ok a => exact ⟨fun h => ⟨a, rfl, h⟩, fun ⟨_, h, hf⟩ => by cases h; exact hf⟩

theorem bind_succeeds {x : Except ε α} {f : α → Except ε β} {P : α → Prop} {Q : β → Prop}
    (hx : ∃ a, x = .ok a ∧ P a) (hf : ∀ a, P a → ∃ b, f a = .ok b ∧ Q b) :
    ∃ b, x >>= f = .ok b ∧ Q b := by
  obtain ⟨a, rfl, ha⟩ := hx
  exact hf a ha

/-- A loop that succeeds keeps what each turn that succeeds keeps. -/
theorem foldlM_invariant {f : β → α → Except ε β} {P : β → Prop} {l : List α} {b b' : β}
    (h : l.foldlM f b = .ok b') (hb : P b)
    (hstep : ∀ c a c', a ∈ l → P c → f c a = .ok c' → P c') : P b' := by
  induction l generalizing b with
  | nil => cases h; exact hb
  | cons a l ih =>
    rw [List.foldlM_cons] at h
    obtain ⟨c, hc, hrest⟩ := bind_eq_ok.mp h
    exact ih hrest (hstep b a c (.head l) hb hc) fun c a c' ha => hstep c a c' (.tail _ ha)

theorem foldlM_succeeds {f : β → α → Except ε β} {P : β → Prop} {l : List α} {b : β} (hb : P b)
    (hstep : ∀ c a, a ∈ l → P c → ∃ c', f c a = .ok c' ∧ P c') :
    ∃ b', l.foldlM f b = .ok b' ∧ P b' := by
  induction l generalizing b with
  | nil => exact ⟨b, rfl, hb⟩
  | cons a l ih =>
    rw [List.foldlM_cons]
    exact bind_succeeds (hstep b a (.head l) hb) fun c hc =>
      ih hc fun c a ha => hstep c a (.tail _ ha)

/-- A loop that succeeds goes along with one that cannot fail, if each turn keeps their relation. -/
theorem foldlM_simulates {γ : Type} {f : β → α → Except ε β} {g : γ → α → γ} {R : β → γ → Prop} {l : List α}
    {b b' : β} {d : γ} (h : l.foldlM f b = .ok b') (hb : R b d)
    (hstep : ∀ c a c' d, a ∈ l → R c d → f c a = .ok c' → R c' (g d a)) : R b' (l.foldl g d) := by
  induction l generalizing b d with
  | nil => cases h; exact hb
  | cons a l ih =>
    rw [List.foldlM_cons] at h
    obtain ⟨c, hc, hrest⟩ := bind_eq_ok.mp h
    exact ih hrest (hstep b a c d (.head l) hb hc) fun c a c' d ha => hstep c a c' d (.tail _ ha)

/-! ### Loops and what was done before -/

theorem exists_split_append_singleton {α : Type} {l : List α} {a : α} {p : List α → α → List α → Prop} :
    (∃ before x after, l ++ [a] = before ++ x :: after ∧ p before x after) ↔
      p l a [] ∨ ∃ before x after, l = before ++ x :: after ∧ p before x (after ++ [a]) := by
  constructor
  · rintro ⟨before, x, after, heq, hp⟩
    rcases List.eq_nil_or_concat after with rfl | ⟨after', last, rfl⟩
    · obtain ⟨rfl, hlast⟩ := List.append_inj' heq rfl
      cases hlast
      exact Or.inl hp
    · rw [List.concat_eq_append] at heq hp
      rw [← List.cons_append, ← List.append_assoc] at heq
      obtain ⟨rfl, hlast⟩ := List.append_inj' heq rfl
      cases hlast
      exact Or.inr ⟨before, x, after', rfl, hp⟩
  · rintro (hp | ⟨before, x, after, rfl, hp⟩)
    · exact ⟨l, a, [], rfl, hp⟩
    · exact ⟨before, x, after ++ [a], by simp, hp⟩

theorem forall_split_append_singleton {α : Type} {l : List α} {a : α} {p : List α → α → Prop} :
    (∀ before x after, l ++ [a] = before ++ x :: after → p before x) ↔
      p l a ∧ ∀ before x after, l = before ++ x :: after → p before x := by
  have h := exists_split_append_singleton (l := l) (a := a) (p := fun before x _ => ¬p before x)
  rw [← not_iff_not]
  simpa only [not_forall, not_and_or, exists_prop] using h

/-- A loop whose turns succeed exactly where a condition on what was done before them holds: it succeeds if
and only if the condition holds at every turn. -/
theorem foldlM_succeeds_iff {f : β → α → Except ε β} {I : List α → β → Prop} {C : List α → α → Prop}
    {d l : List α} {b : β} (hb : I d b)
    (hok : ∀ pre a c, a ∈ l → I pre c → C pre a → ∃ c', f c a = .ok c' ∧ I (pre ++ [a]) c')
    (herror : ∀ pre a c, a ∈ l → I pre c → ¬C pre a → ∃ e, f c a = .error e) :
    ((∃ b', l.foldlM f b = .ok b') ↔ ∀ pre a post, l = pre ++ a :: post → C (d ++ pre) a) ∧
      ∀ b', l.foldlM f b = .ok b' → I (d ++ l) b' := by
  induction l generalizing d b with
  | nil =>
    refine ⟨⟨fun _ pre a post h => by simp at h, fun _ => ⟨b, rfl⟩⟩, fun b' h => ?_⟩
    cases h
    simpa using hb
  | cons a l ih =>
    rw [List.foldlM_cons]
    by_cases ha : C d a
    · obtain ⟨c, hc, hinv⟩ := hok d a b (.head l) hb ha
      obtain ⟨hiff, hend⟩ := ih hinv (fun pre x d hx => hok pre x d (.tail _ hx))
        fun pre x d hx => herror pre x d (.tail _ hx)
      rw [hc, ok_bind]
      refine ⟨hiff.trans ⟨fun hrest pre x post heq => ?_, fun hall pre x post heq => ?_⟩, fun b' hb' => ?_⟩
      · cases pre with
        | nil =>
          obtain ⟨rfl, -⟩ := List.cons.inj heq
          simpa using ha
        | cons y pre =>
          obtain ⟨rfl, hrest'⟩ := List.cons.inj heq
          simpa using hrest pre x post hrest'
      · simpa using hall (a :: pre) x post (by rw [heq, List.cons_append])
      · simpa using hend b' hb'
    · obtain ⟨e, he⟩ := herror d a b (.head l) hb ha
      rw [he]
      refine ⟨iff_of_false (fun ⟨b', hb'⟩ => nomatch hb') fun hall => ?_, fun b' hb' => nomatch hb'⟩
      exact ha (by simpa using hall [] a l rfl)

/-! ### Maps that may fail -/

theorem mapM_eq_some_iff {f : α → Option β} {l : List α} {l' : List β} :
    l.mapM f = some l' ↔ List.Forall₂ (fun a b => f a = some b) l l' := by
  induction l generalizing l' with
  | nil =>
    rw [List.mapM_nil, List.forall₂_nil_left_iff]
    exact ⟨fun h => by cases h; rfl, fun h => by rw [h]; rfl⟩
  | cons a l ih =>
    rw [List.mapM_cons]
    constructor
    · intro h
      obtain ⟨b, hb, h⟩ := Option.bind_eq_some_iff.mp h
      obtain ⟨bs, hbs, h⟩ := Option.bind_eq_some_iff.mp h
      cases h
      exact .cons hb (ih.mp hbs)
    · rintro (_ | ⟨hb, hbs⟩)
      simp [hb, ih.mpr hbs]

end Fallible
