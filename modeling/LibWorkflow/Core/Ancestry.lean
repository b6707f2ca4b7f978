import LibWorkflow.Core.Request

/-!
# The ancestry of a report

`tools/error_report.cpp`. A report is rethrown by a report that has it as its parent; `ErrorWrapper` does
so once for each workflow the error leaves. However often that happens and whatever the rethrows carry,
the ancestry of the last report is the chain of all of them, and each answers with the key and the message
of the first (`getAncestry_last`).
-/

namespace LibWorkflow

namespace ErrorReportOf

variable {ρ : Type}

/-! ## The root of a report -/

theorem root_of_parent_eq_none : ∀ {er : ErrorReportOf ρ}, er.parent = none → er.root = er
  | ⟨_, _, _, none, _⟩, _ => by rw [root]

theorem parent_root : ∀ er : ErrorReportOf ρ, er.root.parent = none
  | ⟨_, _, _, none, _⟩ => by rw [root]
  | ⟨_, _, _, some parent, _⟩ => by rw [root, parent_root parent]

theorem getErrorKey_eq (er : ErrorReportOf ρ) : er.getErrorKey = er.root.errorKey := by
  unfold getErrorKey
  split
  case h_1 hnone => rw [root_of_parent_eq_none hnone]
  case h_2 => rfl

theorem getErrorMessage_eq (er : ErrorReportOf ρ) : er.getErrorMessage = er.root.errorMessage := by
  unfold getErrorMessage
  split
  case h_1 hnone => rw [root_of_parent_eq_none hnone]
  case h_2 => rfl

/-- How `getErrorMessage` and `getErrorKey` call themselves: a report without a parent answers with its own
text, any other asks the first report of its ancestry. -/
def AsksFirst (own get : ErrorReportOf ρ → String) : Prop :=
  ∀ er, get er = match er.parent with
    | none => own er
    | some _ => er.getAncestry.head?.elim "" get

/-- The recursion ends after one call, at the root, so it leaves one function. -/
theorem asksFirst_iff {own get : ErrorReportOf ρ → String} :
    AsksFirst own get ↔ ∀ er, get er = own er.root := by
  constructor
  · intro hget er
    have hroot := hget er.root
    rw [parent_root] at hroot
    have her := hget er
    cases hparent : er.parent with
    | none => rwa [root_of_parent_eq_none hparent] at hroot ⊢
    | some parent =>
      rw [hparent, head?_getAncestry] at her
      exact her.trans hroot
  · intro hget er
    cases hparent : er.parent with
    | none => rw [hget, root_of_parent_eq_none hparent]
    | some parent =>
      rw [head?_getAncestry]
      exact (hget er).trans (by rw [Option.elim_some, hget, root_of_parent_eq_none (parent_root er)])

theorem asksFirst_errorKey {get : ErrorReportOf ρ → String} :
    AsksFirst errorKey get ↔ get = getErrorKey :=
  asksFirst_iff.trans ⟨fun h => funext fun er => (h er).trans er.getErrorKey_eq.symm,
    fun h er => h ▸ er.getErrorKey_eq⟩

theorem asksFirst_errorMessage {get : ErrorReportOf ρ → String} :
    AsksFirst errorMessage get ↔ get = getErrorMessage :=
  asksFirst_iff.trans ⟨fun h => funext fun er => (h er).trans er.getErrorMessage_eq.symm,
    fun h er => h ▸ er.getErrorMessage_eq⟩

end ErrorReportOf

/-! ## Chains of rethrows -/

/-- What a report is built with, its parent apart, and the request it is given. -/
structure Throw (ρ : Type) where
  target : Target
  errorKey : String
  errorMessage : String
  original : Option ρ

namespace ErrorReportOf

variable {ρ : Type}

/-- `ErrorReport(target, key, message)` and its `setRequest`. -/
def thrown (t : Throw ρ) : ErrorReportOf ρ :=
  { ofError t.target t.errorKey t.errorMessage with original := t.original }

/-- `ErrorReport(target, parent, key, message)` and its `setRequest`. -/
def rethrown (parent : ErrorReportOf ρ) (t : Throw ρ) : ErrorReportOf ρ :=
  { rethrow t.target (some parent) with
    errorKey := t.errorKey
    errorMessage := t.errorMessage
    original := t.original }

/-- The reports of a chain of rethrows, each built with the one before it as parent. -/
def chain (first : Throw ρ) (rethrows : List (Throw ρ)) : List (ErrorReportOf ρ) :=
  rethrows.scanl rethrown (thrown first)

def last (first : Throw ρ) (rethrows : List (Throw ρ)) : ErrorReportOf ρ :=
  rethrows.foldl rethrown (thrown first)

theorem rethrow_eq (target : Target) (er : ErrorReportOf ρ) :
    rethrow target (some er) = er.rethrown ⟨target, "", "", none⟩ := rfl

@[simp] theorem getAncestry_thrown (t : Throw ρ) : (thrown t).getAncestry = [thrown t] := rfl

@[simp] theorem getAncestry_rethrown (er : ErrorReportOf ρ) (t : Throw ρ) :
    (er.rethrown t).getAncestry = er.getAncestry ++ [er.rethrown t] := by
  rw [rethrown, rethrow, getAncestry]

@[simp] theorem root_thrown (t : Throw ρ) : (thrown t).root = thrown t := rfl

@[simp] theorem root_rethrown (er : ErrorReportOf ρ) (t : Throw ρ) : (er.rethrown t).root = er.root := by
  rw [rethrown, rethrow, root]

/-- A rethrow adds itself at the end of the ancestry it finds. -/
theorem getAncestry_foldl_rethrown (er : ErrorReportOf ρ) (rethrows : List (Throw ρ)) :
    (rethrows.foldl rethrown er).getAncestry = er.getAncestry ++ (rethrows.scanl rethrown er).tail := by
  induction rethrows generalizing er with
  | nil => simp
  | cons t rethrows ih =>
    rw [List.foldl_cons, ih, getAncestry_rethrown, List.scanl_cons, List.tail_cons, List.append_assoc,
      List.singleton_append]
    exact congrArg _ (List.cons_head?_tail List.head?_scanl)

theorem forall_mem_scanl {P : ErrorReportOf ρ → Prop} (hrethrown : ∀ er t, P er → P (er.rethrown t))
    {er : ErrorReportOf ρ} (her : P er) (rethrows : List (Throw ρ)) :
    ∀ report ∈ rethrows.scanl rethrown er, P report := by
  induction rethrows generalizing er with
  | nil => rw [List.scanl_nil]; exact List.forall_mem_singleton.mpr her
  | cons t rethrows ih =>
    rw [List.scanl_cons]
    exact List.forall_mem_cons.mpr ⟨her, ih (hrethrown er t her)⟩

/-- No rethrow changes the root, whatever it carries. -/
theorem root_of_mem_scanl {er report : ErrorReportOf ρ} {rethrows : List (Throw ρ)}
    (hmem : report ∈ rethrows.scanl rethrown er) : report.root = er.root :=
  forall_mem_scanl (P := fun report => report.root = er.root)
    (fun report t hroot => (root_rethrown report t).trans hroot) rfl rethrows report hmem

theorem length_getAncestry_le {er report : ErrorReportOf ρ} {rethrows : List (Throw ρ)}
    (hmem : report ∈ rethrows.scanl rethrown er) : er.getAncestry.length ≤ report.getAncestry.length := by
  refine forall_mem_scanl (P := fun report => er.getAncestry.length ≤ report.getAncestry.length)
    (fun report t hle => ?_) le_rfl rethrows report hmem
  rw [getAncestry_rethrown, List.length_append]
  exact hle.trans (Nat.le_add_right _ _)

theorem nodup_scanl (er : ErrorReportOf ρ) (rethrows : List (Throw ρ)) :
    (rethrows.scanl rethrown er).Nodup := by
  induction rethrows generalizing er with
  | nil => rw [List.scanl_nil]; exact List.nodup_singleton er
  | cons t rethrows ih =>
    rw [List.scanl_cons, List.nodup_cons]
    refine ⟨fun hmem => ?_, ih _⟩
    have hlonger := length_getAncestry_le hmem
    rw [getAncestry_rethrown, List.length_append] at hlonger
    exact absurd hlonger (Nat.not_succ_le_self _)

/-- The ancestry of the report at the end of a chain is the chain, which has one report for each throw,
all of them different, the first at its root and the report itself last; and every report of the chain
answers with the key and the message of the first. -/
theorem getAncestry_last (first : Throw ρ) (rethrows : List (Throw ρ)) :
    (last first rethrows).getAncestry = chain first rethrows ∧
      (chain first rethrows).length = rethrows.length + 1 ∧ (chain first rethrows).Nodup ∧
      (chain first rethrows).head? = some (thrown first) ∧
      (chain first rethrows).getLast? = some (last first rethrows) ∧
      ∀ report ∈ chain first rethrows,
        report.getErrorKey = first.errorKey ∧ report.getErrorMessage = first.errorMessage := by
  refine ⟨?_, List.length_scanl, nodup_scanl _ _, List.head?_scanl, List.getLast?_scanl, ?_⟩
  · rw [last, getAncestry_foldl_rethrown, getAncestry_thrown, List.singleton_append]
    exact List.cons_head?_tail List.head?_scanl
  · intro report hmem
    rw [getErrorKey_eq, getErrorMessage_eq, root_of_mem_scanl hmem, root_thrown]
    exact ⟨rfl, rfl⟩

end ErrorReportOf

end LibWorkflow
