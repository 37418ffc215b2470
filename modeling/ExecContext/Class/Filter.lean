import ExecContext.Class.Basic

/-!
# Stock filters

The filters that a host can name.  Some hide or select properties by how the
class declares them, some by their values, some by their names.

Main results:

- Theorem `StockFilter.ofLabel?_label`: a filter is found again by its label.
-/

namespace ExecContext

/-- A filter known by its label. -/
inductive StockFilter where
  | keepAll
  | dropAll
  | hidePrivate
  | onlyPublic
  | hideReadonly
  | onlyInstance
  | hideDefault
  | hideNull
  | onlyStrings
  | hideZero
  | hidePassword
  | hideClassName
  deriving DecidableEq, Repr

namespace StockFilter

/-- All stock filters. -/
def all : List StockFilter :=
  [keepAll, dropAll, hidePrivate, onlyPublic, hideReadonly, onlyInstance, hideDefault, hideNull,
    onlyStrings, hideZero, hidePassword, hideClassName]

/-- The label of a filter. -/
def label : StockFilter → String
  | keepAll => "keep_all"
  | dropAll => "drop_all"
  | hidePrivate => "hide_private"
  | onlyPublic => "only_public"
  | hideReadonly => "hide_readonly"
  | onlyInstance => "only_instance"
  | hideDefault => "hide_default"
  | hideNull => "hide_null"
  | onlyStrings => "only_strings"
  | hideZero => "hide_zero"
  | hidePassword => "hide_password"
  | hideClassName => "hide_class_name"

/-- The filter of a label. -/
def ofLabel? (label : String) : Option StockFilter :=
  all.find? fun f => f.label == label

/-- Whether a stock filter keeps a property of an instance of the class. -/
def keeps (f : StockFilter) (c : ClassDecl StockFilter) (name : ByteString) (v : Value) : Bool :=
  let declared := c.properties.get? name
  match f with
  | keepAll => true
  | dropAll => false
  | hidePrivate => declared.all fun d => d.visibility != .ownClass
  | onlyPublic => declared.any fun d => d.visibility == .everywhere
  | hideReadonly => declared.all fun d => !d.isReadonly
  | onlyInstance => declared.any fun d => !d.isStatic
  | hideDefault => (c.defaultProperties.get? name).all fun d => !d.equals v
  | hideNull => !v.isNull
  | onlyStrings => v.tag == .string
  | hideZero => !v.equals (.int 0)
  | hidePassword => name != ByteString.ofString "password"
  | hideClassName => name != c.name

instance : FilterRule StockFilter :=
  ⟨keeps⟩

/-- A filter is found again by its label. -/
theorem ofLabel?_label (f : StockFilter) : ofLabel? f.label = some f := by
  cases f <;> decide

end StockFilter

end ExecContext
