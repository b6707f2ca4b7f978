import LibWorkflow.Lib.Ordered

/-!
# Contexts and property sets

The data that flows between actions (`core/context.h`, `contexts/`) and the settings of an action or of
a session (`tools/property.h`, `tools/property_set.h`). Pointers to contexts that may be null are
`Option Context`. The maps inside a context are lists of entries, since a context contains contexts.
-/

namespace LibWorkflow

/-- `Property<T>`; its `type` tag is the type parameter. -/
structure Property (α : Type) where
  key : String
  description : String
  exposed : Bool
  value : α

/-- `PropertySet` over the type of the contexts it may hold. -/
structure PropertySetOf (κ : Type) where
  guarded : Bool
  uintValues : List (String × Property UInt32)
  doubleValues : List (String × Property Float)
  boolValues : List (String × Property Bool)
  stringValues : List (String × Property String)
  customValues : List (String × Property (Option κ))

/-- `Context` and the classes derived from it. A `leaf` is a class with data of its own, given by its
registered type name and the text its fields are saved as; the base class is one, without data. `refs`
is a `RefsStorageCtx`. -/
inductive Context where
  | leaf (type : String) (data : String)
  | skip
  | list (type : String) (contexts : List Context)
  | grouped (contexts : List (String × Context))
  | propertySet (set : PropertySetOf Context)
  | refs (actions contexts : List (String × String)) (workflows : List (String × List (String × String)))

abbrev PropertySet := PropertySetOf Context

/-- `PropertySet::PropertySet`. -/
def PropertySet.new : PropertySet := ⟨false, [], [], [], [], []⟩

/-- The keys of the properties marked as exposed, type by type, as `StateMachine::addAction` goes
through them. -/
def PropertySet.exposedKeys (set : PropertySet) : List String :=
  ((set.boolValues.filter (·.2.exposed)).map Prod.fst) ++
  ((set.doubleValues.filter (·.2.exposed)).map Prod.fst) ++
  ((set.uintValues.filter (·.2.exposed)).map Prod.fst) ++
  ((set.stringValues.filter (·.2.exposed)).map Prod.fst) ++
  ((set.customValues.filter (·.2.exposed)).map Prod.fst)

/-- `getType`. -/
def Context.getType : Context → String
  | .leaf type _ => type
  | .skip => "SkipCtx"
  | .list type _ => type
  | .grouped _ => "GroupedCtx"
  | .propertySet _ => "PropertySet"
  | .refs _ _ _ => "RefsStorageCtx"

/-- `dynamic_pointer_cast<SkipCtx>` succeeds. -/
def Context.isSkip : Context → Bool
  | .skip => true
  | _ => false

/-- `dynamic_pointer_cast<ListCtx>` succeeds, on a list without items. -/
def Context.isEmptyList : Context → Bool
  | .list _ [] => true
  | _ => false

end LibWorkflow
