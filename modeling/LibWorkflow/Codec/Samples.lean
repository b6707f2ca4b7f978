import LibWorkflow.Core.Jsonable

/-!
# A platform

Numbers are written in decimal digits and read back, and the classes of contexts of the library are
registered, with one class of lists and one of values besides.
-/

namespace LibWorkflow

open PropertyTree

namespace Sample

/-- The number of a text of decimal digits, after its sign. -/
def ofDecimal (s : String) : ℤ :=
  if s.toList.head? = some '-' then -(Nat.ofDigitChars 10 s.toList.tail 0 : ℤ)
  else Nat.ofDigitChars 10 s.toList 0

theorem notMem_repr {c : Char} (hc : ¬ c.isDigit) (n : ℕ) : c ∉ n.repr.toList := by
  rw [Nat.toList_repr]
  exact fun h => hc (Nat.isDigit_of_mem_toDigits (by decide) (by decide) h)

theorem ofDecimal_repr (i : ℤ) : ofDecimal i.repr = i := by
  rw [Int.repr_eq_if]
  split_ifs with hi
  · have hhead : ¬ (i.toNat.repr.toList.head? = some '-') := fun h =>
      notMem_repr (by decide) i.toNat (List.mem_of_mem_head? h)
    rw [ofDecimal, if_neg hhead, Nat.toList_repr, Nat.ofDigitChars_ten_toDigits]
    omega
  · have hlist : ("-" ++ (-i).toNat.repr).toList = '-' :: Nat.toDigits 10 (-i).toNat := by
      simp [Nat.toList_repr]
    rw [ofDecimal, hlist, List.head?_cons, if_pos rfl, List.tail_cons, Nat.ofDigitChars_ten_toDigits]
    omega

theorem clean_repr (i : ℤ) : Clean i.repr := by
  have hnat : ∀ n : ℕ, Clean n.repr := fun n =>
    ⟨⟨Nat.repr_ne_empty, notMem_repr (by decide) n⟩, notMem_repr (by decide) n⟩
  rw [Int.repr_eq_if]
  split_ifs with hi
  · exact hnat _
  · obtain ⟨⟨-, hdot⟩, hnul⟩ := hnat (-i).toNat
    refine ⟨⟨fun h => ?_, ?_⟩, ?_⟩
    · simpa using congrArg String.toList h
    · simpa using hdot
    · simpa using hnul

def decimal {α : Type} (toInt : α → ℤ) (ofInt : ℤ → α) (h : ∀ a, ofInt (toInt a) = a) : Translator α where
  write a := (toInt a).repr
  read s := if (ofDecimal s).repr = s then some (ofInt (ofDecimal s)) else none
  read_write a := by rw [ofDecimal_repr, if_pos rfl, h]

def platform : Platform where
  bool := ⟨fun b => if b then "true" else "false",
    fun s => if s = "true" then some true else if s = "false" then some false else none, by decide⟩
  uint32 := decimal (fun n => n.toNat) (fun i => UInt32.ofNat i.toNat) (by simp)
  int32 := decimal id id fun _ => rfl
  uuid := decimal (fun n => n) Int.toNat (by simp)
  writeDouble := fun d => if d == 0 then "0" else toString d
  readDouble := fun _ => none
  showInt := Int.repr
  readInt := ofDecimal
  readInt_showInt := ofDecimal_repr
  clean_showInt := clean_repr
  createContext := fun type =>
    if type = "Context" then some (.leaf "Context" "")
    else if type = "SkipCtx" then some .skip
    else if type = "GroupedCtx" then some (.grouped [])
    else if type = "PropertySet" then some (.propertySet PropertySet.new)
    else if type = "RefsStorageCtx" then some (.refs [] [] [])
    else if type = "SampleList" then some (.list "SampleList" [])
    else if type = "Sample" then some (.leaf "Sample" "")
    else none
  saveLeaf := fun type data => PTree.empty.putAll [("type", type), ("data", data)]
  loadLeaf := fun _ _ root => root.get? "data"
  garbage := ⟨false, 0, 0, 0, 0⟩

/-! ### `write_json` -/

def quoted (text : String) : String :=
  "\"" ++ String.join (text.toList.map fun c =>
    if c.toString ∈ ["\"", "\\", "/"] then "\\" ++ c.toString else c.toString) ++ "\""

def indented (depth : ℕ) : String := String.ofList (List.replicate (4 * depth) ' ')

mutual

def writeValue (depth : ℕ) : PTree → String
  | .node data [] => quoted data
  | .node _ (child :: children) =>
    if (child :: children).all (·.1.isEmpty) then
      "[\n" ++ writeItems (depth + 1) (child :: children) ++ indented depth ++ "]"
    else "\x7b\n" ++ writeMembers (depth + 1) (child :: children) ++ indented depth ++ "\x7d"

def writeItems (depth : ℕ) : List (String × PTree) → String
  | [] => ""
  | (_, child) :: children =>
    indented depth ++ writeValue depth child ++ (if children.isEmpty then "" else ",") ++ "\n" ++
      writeItems depth children

def writeMembers (depth : ℕ) : List (String × PTree) → String
  | [] => ""
  | (key, child) :: children =>
    indented depth ++ quoted key ++ ": " ++ writeValue depth child ++ (if children.isEmpty then "" else ",") ++
      "\n" ++ writeMembers depth children

end

/-- What `write_json` writes of a tree. -/
def writeJson (root : PTree) : String := "\x7b\n" ++ writeMembers 1 root.children ++ "\x7d\n"

theorem isEmpty_writeJson (root : PTree) : (writeJson root).isEmpty = false := by
  rw [← Bool.not_eq_true, String.isEmpty_iff]
  intro h
  simpa [writeJson] using congrArg String.toList h

end Sample

end LibWorkflow
