import Mathlib.Data.List.Sort
import Mathlib.Data.Finset.Defs
import Mathlib.Data.Finset.Dedup

/-!
# Ordered sets and maps

Finite sets and maps over a linear order, held as lists in strictly ascending order: iterating one is
iterating its list, and its first element is the head. The order is a field of the structures, so two
sets with the same members are equal (`OrdSet.ext_mem`), and so are two maps with the same lookups
(`OrdMap.ext_find?`).
-/

namespace Ordered

variable {κ α : Type}

/-- A finite set, as the list of its elements in ascending order. -/
structure OrdSet (κ : Type) [LinearOrder κ] where
  elems : List κ
  sorted : elems.Pairwise (· < ·)

/-- A finite map, as the list of its entries in ascending order of their keys. -/
structure OrdMap (κ α : Type) [LinearOrder κ] where
  entries : List (κ × α)
  sorted : entries.Pairwise (fun a b => a.1 < b.1)

variable [LinearOrder κ]

/-! ### Sets -/

namespace OrdSet

instance : Membership κ (OrdSet κ) := ⟨fun s a => a ∈ s.elems⟩

instance : EmptyCollection (OrdSet κ) := ⟨⟨[], List.Pairwise.nil⟩⟩

instance (a : κ) (s : OrdSet κ) : Decidable (a ∈ s) := inferInstanceAs (Decidable (a ∈ s.elems))

theorem mem_def {a : κ} {s : OrdSet κ} : a ∈ s ↔ a ∈ s.elems := Iff.rfl

@[simp] theorem notMem_empty (a : κ) : a ∉ (∅ : OrdSet κ) := List.not_mem_nil

theorem nodup (s : OrdSet κ) : s.elems.Nodup := s.sorted.imp ne_of_lt

theorem ext_mem {s t : OrdSet κ} (h : ∀ a, a ∈ s ↔ a ∈ t) : s = t := by
  have hperm : s.elems.Perm t.elems := (List.perm_ext_iff_of_nodup s.nodup t.nodup).mpr h
  have helems : s.elems = t.elems :=
    hperm.eq_of_pairwise (fun _ _ _ _ hab hba => (lt_asymm hab hba).elim) s.sorted t.sorted
  cases s; cases t
  exact (mk.injEq ..).mpr helems

theorem eq_empty_iff {s : OrdSet κ} : s = ∅ ↔ ∀ a, a ∉ s :=
  ⟨fun h a => h ▸ notMem_empty a, fun h => ext_mem fun a => iff_of_false (h a) (notMem_empty a)⟩

theorem eq_empty_of_elems {s : OrdSet κ} (h : s.elems = []) : s = ∅ :=
  eq_empty_iff.mpr fun a ha => by rw [mem_def, h] at ha; exact List.not_mem_nil ha

/-- Add an element; a set that has it already is left as it is. -/
def insert (s : OrdSet κ) (a : κ) : OrdSet κ :=
  if h : a ∈ s.elems then s
  else ⟨s.elems.orderedInsert (· ≤ ·) a, by
    have hle : (s.elems.orderedInsert (· ≤ ·) a).Pairwise (· ≤ ·) :=
      (s.sorted.imp le_of_lt).orderedInsert a _
    have hnodup : (s.elems.orderedInsert (· ≤ ·) a).Nodup :=
      (List.perm_orderedInsert (· ≤ ·) a s.elems).nodup_iff.mpr (List.nodup_cons.mpr ⟨h, s.nodup⟩)
    exact hle.imp₂ (fun _ _ hab hne => lt_of_le_of_ne hab hne) hnodup⟩

def erase (s : OrdSet κ) (a : κ) : OrdSet κ :=
  ⟨s.elems.erase a, s.sorted.sublist List.erase_sublist⟩

@[simp] theorem mem_insert {s : OrdSet κ} {a b : κ} : b ∈ s.insert a ↔ b = a ∨ b ∈ s := by
  unfold insert
  split_ifs with h
  · exact ⟨Or.inr, fun hb => hb.elim (fun e => e ▸ h) id⟩
  · exact List.mem_orderedInsert _

@[simp] theorem mem_erase {s : OrdSet κ} {a b : κ} : b ∈ s.erase a ↔ b ≠ a ∧ b ∈ s :=
  s.nodup.mem_erase_iff

theorem length_erase_of_mem {s : OrdSet κ} {a : κ} (h : a ∈ s) :
    (s.erase a).elems.length + 1 = s.elems.length := List.length_erase_add_one h

theorem erase_of_notMem {s : OrdSet κ} {a : κ} (h : a ∉ s) : s.erase a = s :=
  ext_mem fun b => by rw [mem_erase]; exact ⟨And.right, fun hb => ⟨fun e => h (e ▸ hb), hb⟩⟩

def toFinset (s : OrdSet κ) : Finset κ := s.elems.toFinset

@[simp] theorem mem_toFinset {s : OrdSet κ} {a : κ} : a ∈ s.toFinset ↔ a ∈ s := List.mem_toFinset

end OrdSet

/-! ### Maps -/

/-- The value of the first entry with key `k`. -/
def lookupEntry (k : κ) : List (κ × α) → Option α
  | [] => none
  | (k', v) :: rest => if k' = k then some v else lookupEntry k rest

/-- Put an entry at its place, overwriting the one with the same key. -/
def insertEntry (k : κ) (v : α) : List (κ × α) → List (κ × α)
  | [] => [(k, v)]
  | (k', v') :: rest =>
    if k < k' then (k, v) :: (k', v') :: rest
    else if k' = k then (k, v) :: rest
    else (k', v') :: insertEntry k v rest

theorem mem_insertEntry {k : κ} {v : α} {l : List (κ × α)} {e : κ × α}
    (h : e ∈ insertEntry k v l) : e = (k, v) ∨ e ∈ l := by
  induction l with
  | nil => exact Or.inl (List.mem_singleton.mp h)
  | cons head rest ih =>
    obtain ⟨k', v'⟩ := head
    rw [insertEntry] at h
    split_ifs at h with hlt heq
    · exact (List.mem_cons.mp h)
    · exact (List.mem_cons.mp h).imp_right (List.mem_cons_of_mem _)
    · rcases List.mem_cons.mp h with rfl | h
      · exact Or.inr List.mem_cons_self
      · exact (ih h).imp_right (List.mem_cons_of_mem _)

theorem insertEntry_sorted (k : κ) (v : α) {l : List (κ × α)}
    (h : l.Pairwise (fun a b => a.1 < b.1)) :
    (insertEntry k v l).Pairwise (fun a b => a.1 < b.1) := by
  induction l with
  | nil => exact List.pairwise_singleton _ _
  | cons head rest ih =>
    obtain ⟨k', v'⟩ := head
    obtain ⟨hhead, hrest⟩ := List.pairwise_cons.mp h
    rw [insertEntry]
    split_ifs with hlt heq
    · refine List.pairwise_cons.mpr ⟨fun e he => ?_, h⟩
      rcases List.mem_cons.mp he with rfl | he
      · exact hlt
      · exact hlt.trans (hhead e he)
    · subst heq
      exact List.pairwise_cons.mpr ⟨hhead, hrest⟩
    · refine List.pairwise_cons.mpr ⟨fun e he => ?_, ih hrest⟩
      rcases mem_insertEntry he with rfl | he
      · exact lt_of_le_of_ne (not_lt.mp hlt) heq
      · exact hhead e he

theorem lookupEntry_insertEntry (k j : κ) (v : α) (l : List (κ × α)) :
    lookupEntry j (insertEntry k v l) = if j = k then some v else lookupEntry j l := by
  induction l with
  | nil => simp only [insertEntry, lookupEntry, eq_comm]
  | cons head rest ih =>
    obtain ⟨k', v'⟩ := head
    rw [insertEntry]
    by_cases hlt : k < k'
    · rw [if_pos hlt, lookupEntry]
      simp only [eq_comm]
    · rw [if_neg hlt]
      by_cases heq : k' = k
      · subst heq
        rw [if_pos rfl, lookupEntry, lookupEntry]
        by_cases hj : j = k'
        · rw [if_pos hj.symm, if_pos hj]
        · rw [if_neg (Ne.symm hj), if_neg hj, if_neg (Ne.symm hj)]
      · rw [if_neg heq, lookupEntry, lookupEntry, ih]
        by_cases hj : j = k
        · rw [if_pos hj, if_pos hj, if_neg (fun h => heq (h.trans hj))]
        · rw [if_neg hj, if_neg hj]

theorem mem_of_lookupEntry {k : κ} {v : α} {l : List (κ × α)} (h : lookupEntry k l = some v) :
    (k, v) ∈ l := by
  induction l with
  | nil => cases h
  | cons head rest ih =>
    obtain ⟨k', v'⟩ := head
    rw [lookupEntry] at h
    split_ifs at h with heq
    · subst heq
      cases h
      exact List.mem_cons_self
    · exact List.mem_cons_of_mem _ (ih h)

theorem lookupEntry_of_mem {k : κ} {v : α} {l : List (κ × α)}
    (hsorted : l.Pairwise (fun a b => a.1 < b.1)) (h : (k, v) ∈ l) : lookupEntry k l = some v := by
  induction l with
  | nil => cases h
  | cons head rest ih =>
    obtain ⟨k', v'⟩ := head
    obtain ⟨hhead, hrest⟩ := List.pairwise_cons.mp hsorted
    rcases List.mem_cons.mp h with heq | h
    · cases heq
      rw [lookupEntry, if_pos rfl]
    · rw [lookupEntry, if_neg (hhead _ h).ne, ih hrest h]

theorem lookupEntry_map {β : Type} (f : α → β) (k : κ) (l : List (κ × α)) :
    lookupEntry k (l.map fun e => (e.1, f e.2)) = (lookupEntry k l).map f := by
  induction l with
  | nil => rfl
  | cons head rest ih =>
    rw [List.map_cons, lookupEntry, lookupEntry, ih]
    split_ifs <;> rfl

theorem exists_lookupEntry_iff {k : κ} {l : List (κ × α)} :
    (∃ v, lookupEntry k l = some v) ↔ k ∈ l.map Prod.fst := by
  induction l with
  | nil => simp [lookupEntry]
  | cons head rest ih =>
    rw [lookupEntry, List.map_cons, List.mem_cons]
    split_ifs with hk
    · simp [hk]
    · rw [ih]
      exact (or_iff_right (Ne.symm hk)).symm

theorem lookupEntry_eq_none_iff {k : κ} {l : List (κ × α)} : lookupEntry k l = none ↔ k ∉ l.map Prod.fst := by
  rw [← exists_lookupEntry_iff, Option.eq_none_iff_forall_ne_some, not_exists]

theorem exists_of_rel_some {β : Type} {r : α → β → Prop} {a : α} {x : Option β} (h : Option.Rel r (some a) x) :
    ∃ b, x = some b ∧ r a b := by
  cases h with
  | some hr => exact ⟨_, rfl, hr⟩

theorem eq_none_of_rel {β : Type} {r : α → β → Prop} {x : Option β} (h : Option.Rel r none x) : x = none := by
  cases h
  rfl

omit [LinearOrder κ] in
theorem exists_forall₂ {β : Type} {r : α → β → Prop} {l : List (κ × α)} (h : ∀ e ∈ l, ∃ b, r e.2 b) :
    ∃ l' : List (κ × β), List.Forall₂ (fun a b => a.1 = b.1 ∧ r a.2 b.2) l l' := by
  induction l with
  | nil => exact ⟨[], .nil⟩
  | cons e l ih =>
    obtain ⟨⟨b, hb⟩, hrest⟩ := List.forall_mem_cons.mp h
    obtain ⟨l', hl'⟩ := ih hrest
    exact ⟨(e.1, b) :: l', .cons ⟨rfl, hb⟩ hl'⟩

omit [LinearOrder κ] in
theorem map_fst_of_forall₂ {β : Type} {r : α → β → Prop} {l₁ : List (κ × α)} {l₂ : List (κ × β)}
    (h : List.Forall₂ (fun a b => a.1 = b.1 ∧ r a.2 b.2) l₁ l₂) : l₁.map Prod.fst = l₂.map Prod.fst := by
  induction h with
  | nil => rfl
  | cons hhead _ ih => rw [List.map_cons, List.map_cons, hhead.1, ih]

/-- Entry by entry related lists are related at each key. -/
theorem lookupEntry_rel {β : Type} {r : α → β → Prop} {l₁ : List (κ × α)} {l₂ : List (κ × β)}
    (h : List.Forall₂ (fun a b => a.1 = b.1 ∧ r a.2 b.2) l₁ l₂) (k : κ) :
    Option.Rel r (lookupEntry k l₁) (lookupEntry k l₂) := by
  induction h with
  | nil => exact .none
  | @cons a b l₁ l₂ hhead _ ih =>
    obtain ⟨hkey, hvalue⟩ := hhead
    rw [lookupEntry, lookupEntry, ← hkey]
    split_ifs
    · exact .some hvalue
    · exact ih

/-- Two lists in key order with the same lookups are the same list. -/
theorem eq_of_lookupEntry_eq {l₁ l₂ : List (κ × α)}
    (h₁ : l₁.Pairwise (fun a b => a.1 < b.1)) (h₂ : l₂.Pairwise (fun a b => a.1 < b.1))
    (h : ∀ k, lookupEntry k l₁ = lookupEntry k l₂) : l₁ = l₂ := by
  have hnodup : ∀ {l : List (κ × α)}, l.Pairwise (fun a b => a.1 < b.1) → l.Nodup :=
    fun hl => hl.imp fun hab heq => (heq ▸ hab).false
  have hmem : ∀ e, e ∈ l₁ ↔ e ∈ l₂ := fun ⟨k, v⟩ =>
    ⟨fun he => mem_of_lookupEntry ((h k).symm.trans (lookupEntry_of_mem h₁ he)),
      fun he => mem_of_lookupEntry ((h k).trans (lookupEntry_of_mem h₂ he))⟩
  have hperm : l₁.Perm l₂ := (List.perm_ext_iff_of_nodup (hnodup h₁) (hnodup h₂)).mpr hmem
  exact hperm.eq_of_pairwise (fun _ _ _ _ hab hba => (lt_asymm hab hba).elim) h₁ h₂

/-! ### Entries written one after the other -/

def insertEntries (entries store : List (κ × α)) : List (κ × α) :=
  entries.foldl (fun store e => insertEntry e.1 e.2 store) store

theorem insertEntries_sorted (entries : List (κ × α)) {store : List (κ × α)}
    (h : store.Pairwise (fun a b => a.1 < b.1)) : (insertEntries entries store).Pairwise (fun a b => a.1 < b.1) := by
  induction entries generalizing store with
  | nil => exact h
  | cons e entries ih => exact ih (insertEntry_sorted _ _ h)

theorem lookupEntry_append (k : κ) (l₁ l₂ : List (κ × α)) :
    lookupEntry k (l₁ ++ l₂) = (lookupEntry k l₁).or (lookupEntry k l₂) := by
  induction l₁ with
  | nil => rfl
  | cons e l₁ ih =>
    rw [List.cons_append, lookupEntry, lookupEntry, ih]
    split_ifs <;> rfl

theorem lookupEntry_insertEntries (k : κ) (entries store : List (κ × α)) :
    lookupEntry k (insertEntries entries store) = (lookupEntry k entries.reverse).or (lookupEntry k store) := by
  induction entries generalizing store with
  | nil => rfl
  | cons e entries ih =>
    have hfirst : lookupEntry k (insertEntries (e :: entries) store) =
        lookupEntry k (insertEntries entries (insertEntry e.1 e.2 store)) := rfl
    rw [hfirst, ih, List.reverse_cons, lookupEntry_append, lookupEntry_insertEntry, Option.or_assoc, lookupEntry]
    by_cases hk : k = e.1
    · rw [if_pos hk, if_pos hk.symm]
      rfl
    · rw [if_neg hk, if_neg (Ne.symm hk)]
      rfl

/-- What is written last under each key is what the store has. -/
def Stored (entries store : List (κ × α)) : Prop :=
  ∀ k v, lookupEntry k entries.reverse = some v → lookupEntry k store = some v

theorem insertEntries_eq_iff {entries store : List (κ × α)} (hsorted : store.Pairwise (fun a b => a.1 < b.1)) :
    insertEntries entries store = store ↔ Stored entries store := by
  constructor
  · intro h k v hlast
    have hfound := lookupEntry_insertEntries k entries store
    rwa [h, hlast] at hfound
  · intro h
    refine eq_of_lookupEntry_eq (insertEntries_sorted entries hsorted) hsorted fun k => ?_
    rw [lookupEntry_insertEntries]
    cases hlast : lookupEntry k entries.reverse with
    | none => rfl
    | some v => exact (h k v hlast).symm

namespace OrdMap

instance : EmptyCollection (OrdMap κ α) := ⟨⟨[], List.Pairwise.nil⟩⟩

def find? (m : OrdMap κ α) (k : κ) : Option α := lookupEntry k m.entries

/-- Store a value under a key, whatever was there. -/
def insert (m : OrdMap κ α) (k : κ) (v : α) : OrdMap κ α :=
  ⟨insertEntry k v m.entries, insertEntry_sorted k v m.sorted⟩

def erase (m : OrdMap κ α) (k : κ) : OrdMap κ α :=
  ⟨m.entries.filter (fun e => e.1 ≠ k), m.sorted.sublist List.filter_sublist⟩

def contains (m : OrdMap κ α) (k : κ) : Bool := (m.find? k).isSome

def keys (m : OrdMap κ α) : List κ := m.entries.map Prod.fst

def isEmpty (m : OrdMap κ α) : Bool := m.entries.isEmpty

def insertAll (m : OrdMap κ α) (ks : List κ) (v : α) : OrdMap κ α :=
  ks.foldl (fun m k => m.insert k v) m

/-- Fold what each group holds into the value under the key of the group. -/
def collect {β : Type} (f : α → β → α) (z : α) (m : OrdMap κ α) (groups : List (κ × List β)) : OrdMap κ α :=
  groups.foldl (fun m group =>
    group.2.foldl (fun m b => m.insert group.1 (f ((m.find? group.1).getD z) b)) m) m

def mapValues {β : Type} (f : α → β) (m : OrdMap κ α) : OrdMap κ β :=
  ⟨m.entries.map fun e => (e.1, f e.2), List.pairwise_map.mpr m.sorted⟩

theorem ext_find? {m n : OrdMap κ α} (h : ∀ k, m.find? k = n.find? k) : m = n := by
  have hentries : m.entries = n.entries := eq_of_lookupEntry_eq m.sorted n.sorted h
  cases m; cases n
  exact (mk.injEq ..).mpr hentries

theorem foldl_insert_eq_iff (entries : List (κ × α)) (m : OrdMap κ α) :
    entries.foldl (fun m e => m.insert e.1 e.2) m = m ↔ Stored entries m.entries := by
  have hentries : ∀ n : OrdMap κ α, (entries.foldl (fun m e => m.insert e.1 e.2) n).entries =
      insertEntries entries n.entries := by
    induction entries with
    | nil => exact fun _ => rfl
    | cons e entries ih => exact fun n => ih (n.insert e.1 e.2)
  rw [← insertEntries_eq_iff m.sorted, ← hentries]
  constructor
  · exact fun h => congrArg OrdMap.entries h
  · intro h
    cases hlast : entries.foldl (fun m e => m.insert e.1 e.2) m
    rw [hlast] at h
    cases m
    exact (mk.injEq ..).mpr h

theorem find?_insert (m : OrdMap κ α) (k j : κ) (v : α) :
    (m.insert k v).find? j = if j = k then some v else m.find? j :=
  lookupEntry_insertEntry k j v m.entries

@[simp] theorem find?_insert_self (m : OrdMap κ α) (k : κ) (v : α) :
    (m.insert k v).find? k = some v := by
  rw [find?_insert, if_pos rfl]

theorem find?_insert_of_ne (m : OrdMap κ α) {k j : κ} (v : α) (h : j ≠ k) :
    (m.insert k v).find? j = m.find? j := by
  rw [find?_insert, if_neg h]

@[simp] theorem find?_mapValues {β : Type} (f : α → β) (m : OrdMap κ α) (k : κ) :
    (m.mapValues f).find? k = (m.find? k).map f := lookupEntry_map f k m.entries

theorem mapValues_insert {β : Type} (f : α → β) (m : OrdMap κ α) (k : κ) (v : α) :
    (m.insert k v).mapValues f = (m.mapValues f).insert k (f v) := by
  refine ext_find? fun j => ?_
  rw [find?_mapValues, find?_insert, find?_insert, find?_mapValues]
  split_ifs <;> rfl

theorem find?_eq_some_iff {m : OrdMap κ α} {k : κ} {v : α} :
    m.find? k = some v ↔ (k, v) ∈ m.entries :=
  ⟨mem_of_lookupEntry, lookupEntry_of_mem m.sorted⟩

@[simp] theorem contains_iff {m : OrdMap κ α} {k : κ} :
    m.contains k = true ↔ ∃ v, m.find? k = some v := Option.isSome_iff_exists

@[simp] theorem contains_eq_false_iff {m : OrdMap κ α} {k : κ} :
    m.contains k = false ↔ m.find? k = none := Option.isSome_eq_false_iff.trans Option.isNone_iff_eq_none

theorem mem_keys {m : OrdMap κ α} {k : κ} : k ∈ m.keys ↔ ∃ v, m.find? k = some v := by
  simp only [keys, List.mem_map, find?_eq_some_iff, Prod.exists, exists_and_right, exists_eq_right]

theorem nodup_keys (m : OrdMap κ α) : m.keys.Nodup :=
  List.pairwise_map.mpr (m.sorted.imp ne_of_lt)

theorem mem_keys_insert {m : OrdMap κ α} {k j : κ} {v : α} :
    j ∈ (m.insert k v).keys ↔ j ∈ m.keys ∨ j = k := by
  simp only [mem_keys, find?_insert]
  by_cases hj : j = k
  · simp [hj]
  · simp [hj]

theorem keys_eq_of_mem_iff {m n : OrdMap κ α} (h : ∀ k, k ∈ m.keys ↔ k ∈ n.keys) : m.keys = n.keys := by
  have hsets : (⟨m.keys, List.pairwise_map.mpr m.sorted⟩ : OrdSet κ) =
      ⟨n.keys, List.pairwise_map.mpr n.sorted⟩ := OrdSet.ext_mem h
  exact congrArg OrdSet.elems hsets

theorem isEmpty_iff {m : OrdMap κ α} : m.isEmpty = true ↔ ∀ k, m.find? k = none := by
  constructor
  · intro h k
    have hnil : m.entries = [] := List.isEmpty_iff.mp h
    rw [find?, hnil, lookupEntry]
  · intro h
    refine List.isEmpty_iff.mpr (List.eq_nil_iff_forall_not_mem.mpr fun e he => ?_)
    have := find?_eq_some_iff.mpr he
    rw [h] at this
    cases this

theorem insert_eq_self_iff {m : OrdMap κ α} {k : κ} {v : α} :
    m.insert k v = m ↔ m.find? k = some v := by
  constructor
  · intro h
    rw [← h, find?_insert_self]
  · intro h
    refine ext_find? fun j => ?_
    rw [find?_insert]
    split_ifs with hj
    · rw [hj, h]
    · rfl

theorem find?_insertAll (ks : List κ) (v : α) (m : OrdMap κ α) (j : κ) :
    (m.insertAll ks v).find? j = if j ∈ ks then some v else m.find? j := by
  induction ks generalizing m with
  | nil => simp [insertAll]
  | cons k ks ih =>
    have hstep : m.insertAll (k :: ks) v = (m.insert k v).insertAll ks v := rfl
    rw [hstep, ih, find?_insert]
    by_cases hj : j = k
    · simp [hj]
    · simp [hj]

theorem find?_foldl_insert {β : Type} (f : α → β → α) (z : α) (k j : κ) (l : List β) (m : OrdMap κ α) :
    ((l.foldl (fun m b => m.insert k (f ((m.find? k).getD z) b)) m).find? j).getD z =
      if j = k then l.foldl f ((m.find? k).getD z) else (m.find? j).getD z := by
  induction l generalizing m with
  | nil => split_ifs with hj <;> simp [hj]
  | cons b l ih =>
    rw [List.foldl_cons, ih, find?_insert_self, Option.getD_some, List.foldl_cons]
    split_ifs with hj
    · rfl
    · rw [find?_insert_of_ne _ _ hj]

/-- With one group for each key, the value under a key is folded from its group. -/
theorem find?_collect {β : Type} (f : α → β → α) (z : α) {groups : List (κ × List β)}
    (hnodup : (groups.map Prod.fst).Nodup) (m : OrdMap κ α) (k : κ) :
    ((m.collect f z groups).find? k).getD z =
      ((lookupEntry k groups).getD []).foldl f ((m.find? k).getD z) := by
  induction groups generalizing m with
  | nil => rfl
  | cons group groups ih =>
    obtain ⟨key, l⟩ := group
    obtain ⟨hnotMem, hnodup⟩ := List.nodup_cons.mp hnodup
    have hstep : m.collect f z ((key, l) :: groups) =
        (l.foldl (fun m b => m.insert key (f ((m.find? key).getD z) b)) m).collect f z groups := rfl
    rw [hstep, ih hnodup, find?_foldl_insert, lookupEntry]
    by_cases hk : key = k
    · have hnone : lookupEntry k groups = none := lookupEntry_eq_none_iff.mpr (hk ▸ hnotMem)
      simp [hk, hnone]
    · simp [hk, Ne.symm hk]

theorem lookupEntry_filter (k j : κ) (l : List (κ × α)) :
    lookupEntry j (l.filter (fun e => e.1 ≠ k)) = if j = k then none else lookupEntry j l := by
  induction l with
  | nil => simp [lookupEntry]
  | cons head rest ih =>
    obtain ⟨k', v'⟩ := head
    by_cases hk : k' = k
    · subst hk
      simp only [List.filter_cons, ne_eq, not_true, decide_false, Bool.false_eq_true, if_false, ih,
        lookupEntry]
      by_cases hj : j = k'
      · simp [hj]
      · simp [hj, Ne.symm hj]
    · simp only [List.filter_cons, ne_eq, hk, not_false_eq_true, decide_true, if_true, lookupEntry, ih]
      by_cases hj : j = k
      · subst hj
        simp [hk]
      · simp [hj]

theorem find?_erase (m : OrdMap κ α) (k j : κ) :
    (m.erase k).find? j = if j = k then none else m.find? j := lookupEntry_filter k j m.entries

/-! ### Maps as sets of keyed values -/

def Holds (m : OrdMap κ α) (a : α) : Prop := ∃ k, m.find? k = some a

def Keyed (key : α → κ) (m : OrdMap κ α) : Prop := ∀ k a, m.find? k = some a → key a = k

variable {key : α → κ} {m : OrdMap κ α}

theorem not_holds_empty (a : α) : ¬(∅ : OrdMap κ α).Holds a := fun ⟨_, h⟩ => nomatch h

theorem keyed_empty : (∅ : OrdMap κ α).Keyed key := fun _ _ h => nomatch h

theorem Keyed.insert (hm : m.Keyed key) (a : α) : (m.insert (key a) a).Keyed key := by
  intro k b h
  rw [find?_insert] at h
  split_ifs at h with hk
  · cases h
    exact hk.symm
  · exact hm k b h

theorem Keyed.erase (hm : m.Keyed key) (k : κ) : (m.erase k).Keyed key := by
  intro j b h
  rw [find?_erase] at h
  split_ifs at h
  exact hm j b h

theorem Keyed.holds_insert (hm : m.Keyed key) (a b : α) :
    (m.insert (key a) a).Holds b ↔ b = a ∨ m.Holds b ∧ key b ≠ key a := by
  constructor
  · rintro ⟨k, h⟩
    rw [find?_insert] at h
    split_ifs at h with hk
    · cases h
      exact .inl rfl
    · refine .inr ⟨⟨k, h⟩, ?_⟩
      rw [hm k b h]
      exact hk
  · rintro (rfl | ⟨⟨k, h⟩, hne⟩)
    · exact ⟨key b, find?_insert_self m (key b) b⟩
    · rw [← hm k b h] at h
      exact ⟨key b, (find?_insert_of_ne m a hne).trans h⟩

theorem Keyed.holds_erase (hm : m.Keyed key) (k : κ) (b : α) :
    (m.erase k).Holds b ↔ m.Holds b ∧ key b ≠ k := by
  constructor
  · rintro ⟨j, h⟩
    rw [find?_erase] at h
    split_ifs at h with hj
    refine ⟨⟨j, h⟩, ?_⟩
    rw [hm j b h]
    exact hj
  · rintro ⟨⟨j, h⟩, hne⟩
    have hj : j ≠ k := by
      rw [← hm j b h]
      exact hne
    refine ⟨j, ?_⟩
    rw [find?_erase, if_neg hj, h]

end OrdMap

end Ordered
