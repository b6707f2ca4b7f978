import LibWorkflow.Lib.Fallible
import LibWorkflow.Lib.Ordered
import Mathlib.Data.List.Nodup
import Mathlib.Data.List.TakeWhile
import Mathlib.Data.String.Basic

/-!
# Property trees

Trees of text with keyed children, in order and possibly under equal keys, read and written through
paths whose pieces are separated by dots. A walk stops where the path ends, so that a separator at the
end names nothing more; adding a child there, or under the empty path, fails an assertion (`none`).
A plain key is a path of one piece: under plain keys the operations are those of a list of entries
(`addAll_of_plain`, `putAll_of_plain`), and under any paths the keys of the result are first pieces
(`mem_keys_addAll`, `mem_keys_putAll`).

Keys are read back as C strings, which end at their first NUL, into ordered entries (`overlay`). What
can come back so are the clean keys: plain, and without a NUL.
-/

namespace PropertyTree

open Ordered

/-! ### Paths -/

/-- The pieces of a path between its separators; there is at least one. -/
def pieces (path : String) : List String := (path.toList.splitOn '.').map String.ofList

def first (path : String) : String := (pieces path).headD ""

/-- The last piece, which names a child of the tree the other pieces lead to. -/
def key (path : String) : String := (pieces path).getLastD ""

def parents (path : String) : List String := (pieces path).dropLast

/-- What a walk follows: nothing more is named by an empty last piece. -/
def fragments (path : String) : List String := if key path = "" then parents path else pieces path

def Plain (path : String) : Prop := path ≠ "" ∧ '.' ∉ path.toList

instance (path : String) : Decidable (Plain path) := inferInstanceAs (Decidable (_ ∧ _))

theorem pieces_ne_nil (path : String) : pieces path ≠ [] := by
  simp [pieces]

theorem notMem_of_mem_splitOn (a : Char) (cs : List Char) : ∀ l ∈ cs.splitOn a, a ∉ l := by
  induction cs with
  | nil =>
    intro l hl
    rw [List.splitOn_nil, List.mem_singleton] at hl
    simp [hl]
  | cons c cs ih =>
    rw [List.splitOn_cons_eq_if_modifyHead]
    split_ifs with hc
    · simpa using ih
    · intro l hl
      have hne : a ≠ c := fun heq => hc (beq_iff_eq.mpr heq.symm)
      cases hsplit : cs.splitOn a with
      | nil => simp [hsplit] at hl
      | cons l' ls =>
        rw [hsplit] at ih hl
        rcases List.mem_cons.mp hl with rfl | hl
        · simp [hne, ih l' List.mem_cons_self]
        · exact ih l (List.mem_cons_of_mem _ hl)

theorem dot_notMem_of_mem_pieces {path piece : String} (h : piece ∈ pieces path) :
    '.' ∉ piece.toList := by
  obtain ⟨cs, hcs, rfl⟩ := List.mem_map.mp h
  rw [String.toList_ofList]
  exact notMem_of_mem_splitOn '.' _ cs hcs

theorem first_mem_pieces (path : String) : first path ∈ pieces path := by
  unfold first
  cases h : pieces path with
  | nil => exact absurd h (pieces_ne_nil path)
  | cons piece rest => simp

theorem dot_notMem_first (path : String) : '.' ∉ (first path).toList :=
  dot_notMem_of_mem_pieces (first_mem_pieces path)

theorem pieces_of_notMem {path : String} (h : '.' ∉ path.toList) : pieces path = [path] := by
  simp [pieces, List.splitOn_eq_singleton h]

theorem first_of_notMem {path : String} (h : '.' ∉ path.toList) : first path = path := by
  simp [first, pieces_of_notMem h]

section Plain

variable {path : String} (h : Plain path)
include h

@[simp] theorem Plain.key_eq : key path = path := by simp [key, pieces_of_notMem h.2]

@[simp] theorem Plain.parents_eq : parents path = [] := by simp [parents, pieces_of_notMem h.2]

@[simp] theorem Plain.fragments_eq : fragments path = [path] := by
  simp [fragments, h, h.1, pieces_of_notMem h.2]

end Plain

theorem key_empty : key "" = "" := by decide

theorem fragments_empty : fragments "" = [] := by decide

/-! ### Trees -/

inductive PTree where
  | node (data : String) (children : List (String × PTree))

namespace PTree

def data : PTree → String
  | node data _ => data

def children : PTree → List (String × PTree)
  | node _ children => children

def empty : PTree := node "" []

def leaf (data : String) : PTree := node data []

def keys (t : PTree) : List String := t.children.map Prod.fst

def texts (t : PTree) : List (String × String) := t.children.map fun child => (child.1, child.2.data)

def setData (t : PTree) (value : String) : PTree := node value t.children

/-- Add a child behind the others, whatever their keys. -/
def push (t : PTree) (key : String) (child : PTree) : PTree := node t.data (t.children ++ [(key, child)])

/-- Change the first child under a key, or add one there. -/
def alterEntry (key : String) (f : Option PTree → PTree) :
    List (String × PTree) → List (String × PTree)
  | [] => [(key, f none)]
  | (k, child) :: rest =>
    if k = key then (k, f (some child)) :: rest else (k, child) :: alterEntry key f rest

def alter (t : PTree) (key : String) (f : Option PTree → PTree) : PTree :=
  node t.data (alterEntry key f t.children)

/-- The first child under a key. -/
def child? (t : PTree) (key : String) : Option PTree := t.children.lookup key

def walk : List String → PTree → Option PTree
  | [], t => some t
  | key :: path, t => (t.child? key).bind (walk path)

/-- Follow the pieces of a path, adding the trees that are missing, and change what is there. -/
def force (f : PTree → PTree) : List String → PTree → PTree
  | [], t => f t
  | key :: path, t => t.alter key fun child => force f path (child.getD empty)

def getChild? (t : PTree) (path : String) : Option PTree := t.walk (fragments path)

def get? (t : PTree) (path : String) : Option String := (t.getChild? path).map data

def addChild (t : PTree) (path : String) (child : PTree) : Option PTree :=
  if key path = "" then none else some (t.force (·.push (key path) child) (parents path))

/-- Put a tree at a path, in place of the first one there. -/
def putChild (t : PTree) (path : String) (child : PTree) : Option PTree :=
  if key path = "" then none else some (t.force (·.alter (key path) fun _ => child) (parents path))

/-- Put a text at a path, keeping what is below. -/
def put (t : PTree) (path value : String) : Option PTree :=
  if (t.getChild? path).isSome then some (t.force (·.setData value) (fragments path))
  else t.putChild path (leaf value)

def addAll (t : PTree) (entries : List (String × PTree)) : Option PTree :=
  entries.foldlM (fun t entry => t.addChild entry.1 entry.2) t

/-- A new tree with a child for each entry, under its key, if all of them can be saved. -/
def ofEntries {α : Type} (save : α → Option PTree) (entries : List (String × α)) : Option PTree := do
  let items ← entries.mapM fun entry => (save entry.2).map (entry.1, ·)
  empty.addAll items

/-- A new tree with a child for each element, without a key, if all of them can be saved. -/
def ofList {α : Type} (save : α → Option PTree) (l : List α) : Option PTree :=
  (l.mapM save).map fun items => node "" (items.map ("", ·))

def putAll (t : PTree) (fields : List (String × String)) : Option PTree :=
  fields.foldlM (fun t field => t.put field.1 field.2) t

@[simp] theorem data_node (data : String) (children : List (String × PTree)) :
    (node data children).data = data := rfl

@[simp] theorem children_node (data : String) (children : List (String × PTree)) :
    (node data children).children = children := rfl

@[simp] theorem data_leaf (data : String) : (leaf data).data = data := rfl

/-! ### Reading -/

theorem sizeOf_lt_of_mem {key : String} {child t : PTree} (h : (key, child) ∈ t.children) :
    sizeOf child < sizeOf t := by
  obtain ⟨data, children⟩ := t
  have hmem : sizeOf (key, child) < sizeOf children := List.sizeOf_lt_of_mem h
  simp only [Prod.mk.sizeOf_spec] at hmem
  simp only [node.sizeOf_spec]
  omega

theorem mem_of_child? {key : String} {child t : PTree} (h : t.child? key = some child) :
    (key, child) ∈ t.children := by
  obtain ⟨before, after, hchildren, -⟩ := List.lookup_eq_some_iff.mp h
  simp [hchildren]

theorem sizeOf_walk_le {path : List String} {t child : PTree} (h : t.walk path = some child) :
    sizeOf child ≤ sizeOf t := by
  induction path generalizing t with
  | nil => simp_all [walk]
  | cons key path ih =>
    obtain ⟨next, hnext, hwalk⟩ := Option.bind_eq_some_iff.mp h
    have hle := ih hwalk
    have hlt := sizeOf_lt_of_mem (mem_of_child? hnext)
    omega

theorem sizeOf_getChild?_lt {path : String} {t child : PTree} (hpath : fragments path ≠ [])
    (h : t.getChild? path = some child) : sizeOf child < sizeOf t := by
  unfold getChild? at h
  cases hfragments : fragments path with
  | nil => exact absurd hfragments hpath
  | cons key path =>
    rw [hfragments] at h
    obtain ⟨next, hnext, hwalk⟩ := Option.bind_eq_some_iff.mp h
    have hle := sizeOf_walk_le hwalk
    have hlt := sizeOf_lt_of_mem (mem_of_child? hnext)
    omega

theorem sizeOf_children_lt (t : PTree) : sizeOf t.children < sizeOf t := by
  cases t
  simp

@[simp] theorem getChild?_of_plain {path : String} (h : Plain path) (t : PTree) :
    t.getChild? path = t.child? path := by
  simp [getChild?, h, walk]

@[simp] theorem getChild?_empty (t : PTree) : t.getChild? "" = some t := by
  rw [getChild?, fragments_empty, walk]

theorem get?_of_plain {path : String} (h : Plain path) (t : PTree) :
    t.get? path = (t.children.lookup path).map data := by
  rw [get?, getChild?_of_plain h, child?]

/-! ### Writing under plain keys -/

theorem addChild_of_plain {path : String} (h : Plain path) (child t : PTree) :
    t.addChild path child = some (t.push path child) := by
  simp [addChild, h, h.1, force]

theorem alterEntry_of_notMem {key : String} (f : Option PTree → PTree) {l : List (String × PTree)}
    (h : key ∉ l.map Prod.fst) : alterEntry key f l = l ++ [(key, f none)] := by
  induction l with
  | nil => rfl
  | cons entry rest ih =>
    obtain ⟨k, child⟩ := entry
    rw [List.map_cons, List.mem_cons, not_or] at h
    rw [alterEntry, if_neg (Ne.symm h.1), ih h.2, List.cons_append]

theorem put_of_plain {path : String} (h : Plain path) (value : String) {t : PTree}
    (hnew : path ∉ t.keys) : t.put path value = some (t.push path (leaf value)) := by
  have hchild : t.child? path = none := by
    unfold child?
    rw [List.lookup_eq_none_iff]
    intro entry hentry
    have hne : entry.1 ≠ path := fun heq => hnew (heq ▸ List.mem_map_of_mem hentry)
    simpa using Ne.symm hne
  have hentries := alterEntry_of_notMem (fun _ => leaf value) hnew
  simp [put, putChild, h, h.1, hchild, force, alter, push, hentries]

theorem addAll_of_plain {entries : List (String × PTree)} (h : ∀ k ∈ entries.map Prod.fst, Plain k)
    (t : PTree) : t.addAll entries = some (node t.data (t.children ++ entries)) := by
  induction entries generalizing t with
  | nil => cases t; simp [addAll]
  | cons entry entries ih =>
    obtain ⟨data, children⟩ := t
    have hentry := addChild_of_plain (h entry.1 List.mem_cons_self) entry.2 (node data children)
    have hrest := ih (fun k hk => h k (List.mem_cons_of_mem _ hk)) ((node data children).push entry.1 entry.2)
    rw [addAll, List.foldlM_cons, hentry]
    exact hrest.trans (by simp [push])

theorem putAll_of_plain {fields : List (String × String)} (h : ∀ k ∈ fields.map Prod.fst, Plain k)
    (t : PTree) (hnodup : (t.keys ++ fields.map Prod.fst).Nodup) :
    t.putAll fields = some (node t.data (t.children ++ fields.map fun field => (field.1, leaf field.2))) := by
  induction fields generalizing t with
  | nil => cases t; simp [putAll]
  | cons field fields ih =>
    obtain ⟨data, children⟩ := t
    have hnew : field.1 ∉ (node data children).keys := fun hmem =>
      (List.nodup_append.mp hnodup).2.2 _ hmem _ List.mem_cons_self rfl
    have hput := put_of_plain (h field.1 List.mem_cons_self) field.2 hnew
    have hrest := ih (fun k hk => h k (List.mem_cons_of_mem _ hk))
      ((node data children).push field.1 (leaf field.2)) (by simpa [push, keys] using hnodup)
    rw [putAll, List.foldlM_cons, hput]
    exact hrest.trans (by simp [push])

/-! ### The keys that writing under any path leaves -/

theorem mem_fst_alterEntry {k key : String} {f : Option PTree → PTree} {l : List (String × PTree)} :
    k ∈ (alterEntry key f l).map Prod.fst ↔ k ∈ l.map Prod.fst ∨ k = key := by
  induction l with
  | nil => simp [alterEntry]
  | cons entry rest ih =>
    rw [alterEntry]
    split_ifs with hkey
    · simp only [List.map_cons, List.mem_cons, ← hkey]
      tauto
    · simp only [List.map_cons, List.mem_cons, ih]
      tauto

theorem mem_keys_alter {k key : String} {f : Option PTree → PTree} {t : PTree} :
    k ∈ (t.alter key f).keys ↔ k ∈ t.keys ∨ k = key := by
  cases t
  exact mem_fst_alterEntry

theorem mem_keys_push {k key : String} {child t : PTree} :
    k ∈ (t.push key child).keys ↔ k ∈ t.keys ∨ k = key := by
  cases t
  simp [push, keys]

/-- A change below the first piece of a path, or at it, adds that piece to the keys. -/
theorem mem_keys_force {k path : String} {f : PTree → PTree} {t : PTree}
    (hf : ∀ t : PTree, k ∈ (f t).keys ↔ k ∈ t.keys ∨ k = key path) :
    k ∈ (t.force f (parents path)).keys ↔ k ∈ t.keys ∨ k = first path := by
  unfold parents first
  unfold key at hf
  match hpieces : pieces path with
  | [] => exact absurd hpieces (pieces_ne_nil path)
  | [piece] =>
    simp only [hpieces, List.getLastD_cons, List.getLastD_nil] at hf
    simp [force, hf]
  | piece :: next :: rest => simp [force, mem_keys_alter]

theorem key_ne_empty_of_addChild {path : String} {child t t' : PTree}
    (h : t.addChild path child = some t') : key path ≠ "" := by
  intro hkey
  simp [addChild, hkey] at h

theorem mem_keys_addChild {path k : String} {child t t' : PTree}
    (h : t.addChild path child = some t') : k ∈ t'.keys ↔ k ∈ t.keys ∨ k = first path := by
  rw [addChild, if_neg (key_ne_empty_of_addChild h), Option.some.injEq] at h
  subst h
  exact mem_keys_force fun t => mem_keys_push

theorem force_keys_subset {k : String} {f : PTree → PTree} (hf : ∀ t : PTree, (f t).keys = t.keys)
    {path : List String} {t : PTree} (hwalk : (t.walk path).isSome) (h : k ∈ (t.force f path).keys) :
    k ∈ t.keys := by
  cases path with
  | nil => simpa [force, hf] using h
  | cons key path =>
    rcases mem_keys_alter.mp h with h | rfl
    · exact h
    · obtain ⟨child, hchild⟩ := Option.isSome_iff_exists.mp hwalk
      obtain ⟨next, hnext, -⟩ := Option.bind_eq_some_iff.mp hchild
      exact List.mem_map_of_mem (mem_of_child? hnext)

theorem mem_keys_put {path value k : String} {t t' : PTree} (h : t.put path value = some t')
    (hk : k ∈ t'.keys) : k ∈ t.keys ∨ path ≠ "" ∧ k = first path := by
  unfold put at h
  split_ifs at h with hsome
  · cases h
    refine .inl (force_keys_subset (fun t => ?_) hsome hk)
    cases t
    rfl
  · have hpath : path ≠ "" := by
      rintro rfl
      simp at hsome
    unfold putChild at h
    split_ifs at h with hkey
    cases h
    exact ((mem_keys_force fun t => mem_keys_alter).mp hk).imp_right fun hfirst => ⟨hpath, hfirst⟩

theorem mem_keys_addAll {entries : List (String × PTree)} {k : String} {t t' : PTree}
    (h : t.addAll entries = some t') (hk : k ∈ t'.keys) :
    k ∈ t.keys ∨ ∃ entry ∈ entries, k = first entry.1 := by
  induction entries generalizing t with
  | nil =>
    cases h
    exact .inl hk
  | cons entry entries ih =>
    obtain ⟨next, hnext, hrest⟩ := Option.bind_eq_some_iff.mp ((List.foldlM_cons ..).symm.trans h)
    rcases ih hrest with hmem | ⟨e, he, hfirst⟩
    · refine ((mem_keys_addChild hnext).mp hmem).imp_right fun hfirst => ?_
      exact ⟨entry, List.mem_cons_self, hfirst⟩
    · exact .inr ⟨e, List.mem_cons_of_mem _ he, hfirst⟩

theorem mem_keys_putAll {fields : List (String × String)} {k : String} {t t' : PTree}
    (h : t.putAll fields = some t') (hk : k ∈ t'.keys) :
    k ∈ t.keys ∨ ∃ field ∈ fields, field.1 ≠ "" ∧ k = first field.1 := by
  induction fields generalizing t with
  | nil =>
    cases h
    exact .inl hk
  | cons field fields ih =>
    obtain ⟨next, hnext, hrest⟩ := Option.bind_eq_some_iff.mp ((List.foldlM_cons ..).symm.trans h)
    rcases ih hrest with hmem | ⟨e, he, hfirst⟩
    · refine (mem_keys_put hnext hmem).imp_right fun hfirst => ?_
      exact ⟨field, List.mem_cons_self, hfirst⟩
    · exact .inr ⟨e, List.mem_cons_of_mem _ he, hfirst⟩

/-! ### Entries saved one by one -/

section Entries

variable {α : Type} {save : α → Option PTree} {entries : List (String × α)}

/-- The items are what the values of the entries are saved as, under the same keys. -/
def Saves (save : α → Option PTree) (entries : List (String × α)) (items : List (String × PTree)) : Prop :=
  List.Forall₂ (fun entry item => entry.1 = item.1 ∧ save entry.2 = some item.2) entries items

theorem saves_iff_of_cons {f : List (String × α) → Option (List (String × PTree))} (hnil : f [] = some [])
    (hcons : ∀ k value rest, f ((k, value) :: rest) =
      (save value).bind fun item => (f rest).map fun items => (k, item) :: items)
    {items : List (String × PTree)} : f entries = some items ↔ Saves save entries items := by
  induction entries generalizing items with
  | nil =>
    rw [hnil, Saves, List.forall₂_nil_left_iff, Option.some.injEq]
    exact eq_comm
  | cons entry entries ih =>
    rw [hcons]
    constructor
    · intro h
      obtain ⟨item, hitem, h⟩ := Option.bind_eq_some_iff.mp h
      obtain ⟨rest, hrest, rfl⟩ := Option.map_eq_some_iff.mp h
      exact .cons ⟨rfl, hitem⟩ (ih.mp hrest)
    · intro h
      obtain ⟨item, rest, hitem, hrest, rfl⟩ := List.forall₂_cons_left_iff.mp h
      refine Option.bind_eq_some_iff.mpr ⟨item.2, hitem.2, Option.map_eq_some_iff.mpr ⟨rest, ih.mpr hrest, ?_⟩⟩
      rw [hitem.1]

theorem exists_saves (h : ∀ entry ∈ entries, ∃ child, save entry.2 = some child) :
    ∃ items, Saves save entries items :=
  exists_forall₂ (r := fun value item => save value = some item) h

theorem Saves.exists_of_mem {items : List (String × PTree)} (h : Saves save entries items)
    {item : String × PTree} (hitem : item ∈ items) :
    ∃ entry ∈ entries, entry.1 = item.1 ∧ save entry.2 = some item.2 := by
  induction h with
  | nil => exact absurd hitem List.not_mem_nil
  | cons hhead _ ih =>
    rcases List.mem_cons.mp hitem with rfl | hrest
    · exact ⟨_, List.mem_cons_self, hhead⟩
    · obtain ⟨entry, hentry, hsave⟩ := ih hrest
      exact ⟨entry, List.mem_cons_of_mem _ hentry, hsave⟩

theorem Saves.keys_eq {items : List (String × PTree)} (h : Saves save entries items) :
    items.map Prod.fst = entries.map Prod.fst :=
  (map_fst_of_forall₂ (r := fun value item => save value = some item) h).symm

theorem ofEntries_eq_some_iff {t : PTree} :
    ofEntries save entries = some t ↔ ∃ items, Saves save entries items ∧ empty.addAll items = some t := by
  have hitem : ∀ (entry : String × α) (item : String × PTree),
      (save entry.2).map (entry.1, ·) = some item ↔ entry.1 = item.1 ∧ save entry.2 = some item.2 := by
    rintro ⟨k, value⟩ ⟨k', child⟩
    cases hsave : save value <;> simp [and_comm]
  simp only [ofEntries, Option.bind_eq_bind, Option.bind_eq_some_iff, Fallible.mapM_eq_some_iff, hitem, Saves]

theorem ofEntries_of_plain (hplain : ∀ k ∈ entries.map Prod.fst, Plain k) {t : PTree} :
    ofEntries save entries = some t ↔ ∃ items, Saves save entries items ∧ t = node "" items := by
  rw [ofEntries_eq_some_iff]
  refine exists_congr fun items => and_congr_right fun hsaves => ?_
  rw [addAll_of_plain (hsaves.keys_eq ▸ hplain)]
  exact ⟨fun h => by cases h; rfl, fun h => by rw [h]; rfl⟩

theorem ofList_of_save {tree : α → PTree} (h : ∀ a, save a = some (tree a)) (l : List α) :
    ofList save l = some (node "" (l.map fun a => ("", tree a))) := by
  have hitems : l.mapM save = some (l.map tree) := by
    rw [Fallible.mapM_eq_some_iff, List.forall₂_map_right_iff]
    exact List.forall₂_same.mpr fun a _ => h a
  simp [ofList, hitems]

/-- If what is saved as a value is loaded as `back` of it, then so are all the values. -/
theorem Saves.map_load {β : Type} {items : List (String × PTree)} (h : Saves save entries items)
    {load : PTree → β} {back : α → β} (hload : ∀ value child, save value = some child → load child = back value) :
    (items.map fun item => (item.1, load item.2)) = entries.map fun entry => (entry.1, back entry.2) := by
  induction h with
  | nil => rfl
  | cons hhead _ ih => rw [List.map_cons, List.map_cons, ih, hhead.1, hload _ _ hhead.2]

end Entries

end PTree

/-! ### Values as text -/

/-- How the values of a type are written as text and read back: what was written is read. -/
structure Translator (α : Type) where
  write : α → String
  read : String → Option α
  read_write : ∀ a, read (write a) = some a

attribute [simp] Translator.read_write

/-! ### Keys read back as C strings -/

/-- The text of a C string: up to its first NUL. -/
def cstr (s : String) : String := String.ofList (s.toList.takeWhile (· ≠ '\x00'))

/-- A key that is read back as it was written. -/
def Clean (key : String) : Prop := Plain key ∧ '\x00' ∉ key.toList

instance (key : String) : Decidable (Clean key) := inferInstanceAs (Decidable (_ ∧ _))

theorem nul_notMem_cstr (s : String) : '\x00' ∉ (cstr s).toList := by
  intro h
  rw [cstr, String.toList_ofList] at h
  simpa using List.mem_takeWhile_imp h

theorem dot_notMem_cstr {s : String} (h : '.' ∉ s.toList) : '.' ∉ (cstr s).toList := by
  rw [cstr, String.toList_ofList]
  exact fun hmem => h (List.takeWhile_subset _ hmem)

theorem cstr_of_notMem {s : String} (h : '\x00' ∉ s.toList) : cstr s = s := by
  have htake : s.toList.takeWhile (· ≠ '\x00') = s.toList :=
    List.takeWhile_eq_self_iff.mpr fun c hc => decide_eq_true fun heq => h (heq ▸ hc)
  rw [cstr, htake, String.ofList_toList]

theorem Clean.cstr_eq {key : String} (h : Clean key) : cstr key = key := cstr_of_notMem h.2

section Overlay

variable {α : Type}

def overlay (store : List (String × α)) (entries : List (String × α)) : List (String × α) :=
  entries.foldl (fun store entry => insertEntry (cstr entry.1) entry.2 store) store

theorem overlay_sorted {store : List (String × α)} (entries : List (String × α))
    (h : store.Pairwise (fun a b => a.1 < b.1)) :
    (overlay store entries).Pairwise (fun a b => a.1 < b.1) := by
  induction entries generalizing store with
  | nil => exact h
  | cons entry entries ih => exact ih (insertEntry_sorted _ _ h)

theorem mem_overlay {store entries : List (String × α)} {e : String × α}
    (h : e ∈ overlay store entries) : e ∈ store ∨ ∃ entry ∈ entries, e.1 = cstr entry.1 := by
  induction entries generalizing store with
  | nil => exact .inl h
  | cons entry entries ih =>
    rcases ih h with hstore | ⟨entry', hentry', heq⟩
    · rcases mem_insertEntry hstore with rfl | hstore
      · exact .inr ⟨entry, List.mem_cons_self, rfl⟩
      · exact .inl hstore
    · exact .inr ⟨entry', List.mem_cons_of_mem _ hentry', heq⟩

theorem lookupEntry_overlay {entries : List (String × α)} (hclean : ∀ entry ∈ entries, Clean entry.1)
    (hsorted : entries.Pairwise (fun a b => a.1 < b.1)) (store : List (String × α)) (k : String) :
    lookupEntry k (overlay store entries) = (lookupEntry k entries).or (lookupEntry k store) := by
  induction entries generalizing store with
  | nil => rfl
  | cons entry entries ih =>
    obtain ⟨key, value⟩ := entry
    obtain ⟨hhead, hrest⟩ := List.pairwise_cons.mp hsorted
    have hkey : cstr key = key := (hclean _ List.mem_cons_self).cstr_eq
    have hlookup := ih (fun e he => hclean e (List.mem_cons_of_mem _ he)) hrest
      (insertEntry key value store)
    show lookupEntry k (overlay (insertEntry (cstr key) value store) entries) = _
    rw [hkey, hlookup, lookupEntry_insertEntry, lookupEntry]
    by_cases hk : k = key
    · subst hk
      have hnone : lookupEntry k entries = none := by
        by_contra hsome
        obtain ⟨v, hv⟩ := Option.ne_none_iff_exists'.mp hsome
        exact lt_irrefl k (hhead (k, v) (mem_of_lookupEntry hv))
      simp [hnone]
    · simp [hk, Ne.symm hk]

theorem overlay_nil {entries : List (String × α)} (hclean : ∀ entry ∈ entries, Clean entry.1)
    (hsorted : entries.Pairwise (fun a b => a.1 < b.1)) : overlay [] entries = entries := by
  refine eq_of_lookupEntry_eq (overlay_sorted _ List.Pairwise.nil) hsorted fun k => ?_
  rw [lookupEntry_overlay hclean hsorted]
  simp [lookupEntry]

/-- Nothing is added where a path names no child: under the empty path, or where a separator ends it. -/
theorem exists_addAll_iff {t : PTree} {entries : List (String × PTree)} :
    (∃ t', t.addAll entries = some t') ↔ ∀ k ∈ entries.map Prod.fst, key k ≠ "" := by
  induction entries generalizing t with
  | nil => exact iff_of_true ⟨t, rfl⟩ (by simp)
  | cons entry entries ih =>
    rw [List.map_cons, List.forall_mem_cons, ← ih (t := t.force (·.push (key entry.1) entry.2) (parents entry.1))]
    constructor
    · rintro ⟨t', h⟩
      obtain ⟨next, hnext, hrest⟩ := Option.bind_eq_some_iff.mp ((List.foldlM_cons ..).symm.trans h)
      have hkey := PTree.key_ne_empty_of_addChild hnext
      rw [PTree.addChild, if_neg hkey, Option.some.injEq] at hnext
      exact ⟨hkey, t', hnext ▸ hrest⟩
    · rintro ⟨hkey, t', hrest⟩
      refine ⟨t', (List.foldlM_cons ..).trans (Option.bind_eq_some_iff.mpr ⟨_, ?_, hrest⟩)⟩
      rw [PTree.addChild, if_neg hkey]

theorem ne_empty_of_addAll {t t' : PTree} {entries : List (String × PTree)} (h : t.addAll entries = some t')
    {k : String} (hk : k ∈ entries.map Prod.fst) : k ≠ "" := by
  intro hempty
  exact exists_addAll_iff.mp ⟨t', h⟩ k hk (by rw [hempty, key_empty])

/-- Whatever the paths something was written under, its keys come back without dots and NULs. -/
theorem notMem_of_read {t : PTree} {entries : List (String × PTree)}
    (ht : PTree.empty.addAll entries = some t) {k : String} (hk : k ∈ t.keys) :
    '.' ∉ (cstr k).toList ∧ '\x00' ∉ (cstr k).toList := by
  rcases PTree.mem_keys_addAll ht hk with h | ⟨entry, -, rfl⟩
  · exact absurd h List.not_mem_nil
  · exact ⟨dot_notMem_cstr (dot_notMem_first _), nul_notMem_cstr _⟩

end Overlay

end PropertyTree
