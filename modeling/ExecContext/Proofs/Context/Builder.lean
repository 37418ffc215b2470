import ExecContext.Proofs.Constant.Alike
import ExecContext.Proofs.Context.Constants

/-!
# Configurations built by calls

Of the calls that build a configuration only a little matters: whether the core constants were
asked for at all, which room for frames was asked for last, and in which order the constants of
each name were defined.  The host's constants stand over the core constants wherever in the list
the core constants were asked for.

Main results:

- Theorem `Config.ofCalls_eq_readOff`: the configuration that calls build, read off their list.
- Theorem `BuilderCall.SameEffect.alike_constantTable`: calls of the same effect store the same.
- Theorem `Config.resolve_ofCalls_of_last`: the last constant of a name stands over all else.
-/

namespace ExecContext

namespace BuilderCall

/-- The room for frames that a call asks for. -/
def capacity? : BuilderCall → Option Nat
  | .stackCapacity frames => some frames
  | .coreConstants | .constant _ _ => none

/-- The constant that a call defines. -/
def constant? : BuilderCall → Option (ByteString × Value)
  | .constant name v => some (name, v)
  | .coreConstants | .stackCapacity _ => none

/-- The room for frames that a list of calls asks for last. -/
def lastCapacity (calls : List BuilderCall) : Nat :=
  (calls.filterMap capacity?).getLast?.getD 64

/-- The constants of one name that a list of calls defines, in order. -/
def constantsNamed (name : ByteString) (calls : List BuilderCall) : List (ByteString × Value) :=
  (calls.filterMap constant?).filter fun e => e.1 = name

/-- Two lists of calls agree on whether core constants are asked for, on the room for frames that
is asked for last, and for each name on the constants that they define, in order. -/
structure SameEffect (calls others : List BuilderCall) : Prop where
  core : .coreConstants ∈ calls ↔ .coreConstants ∈ others
  capacity : lastCapacity calls = lastCapacity others
  constants : ∀ name, constantsNamed name calls = constantsNamed name others

end BuilderCall

namespace Table

variable {α : Type}

/-- A name finds the same when the entries of all other names are left out. -/
theorem lookup_filter_name (name : ByteString) (es : List (ByteString × α)) :
    (es.filter fun e => e.1 = name).lookup name = es.lookup name := by
  induction es with
  | nil => rfl
  | cons e es ih =>
    obtain ⟨key, a⟩ := e
    by_cases hkey : key = name
    · simp [hkey]
    · have hne : (name == key) = false := by simp [Ne.symm hkey]
      simp [hkey, List.lookup_cons, hne, ih]

/-- A name finds its last entry from the end of a list. -/
theorem lookup_reverse_last (es : List (ByteString × α)) {later : List (ByteString × α)}
    {name : ByteString} (a : α) (h : ∀ e ∈ later, e.1 ≠ name) :
    (es ++ (name, a) :: later).reverse.lookup name = some a := by
  have hnone : later.reverse.lookup name = none := by
    rw [List.lookup_eq_none_iff]
    intro e he
    have hne : e.1 ≠ name := h e (List.mem_reverse.mp he)
    simp [Ne.symm hne]
  rw [List.reverse_append, List.reverse_cons, List.append_assoc, List.lookup_append, hnone]
  simp

end Table

namespace Config

open BuilderCall

/-! ## Reading a configuration off the calls -/

/-- The configuration that a list of calls describes: core constants if any call asks for them,
the room for frames that is asked for last, and the constants in the order of their calls. -/
def readOff (calls : List BuilderCall) : Config where
  stackCapacity := lastCapacity calls
  coreConstants := decide (.coreConstants ∈ calls)
  constants := calls.filterMap constant?

theorem readOff_concat (calls : List BuilderCall) (call : BuilderCall) :
    readOff (calls ++ [call]) = (readOff calls).apply call := by
  cases call <;> simp [readOff, apply, lastCapacity, capacity?, constant?]

/-- The configuration that calls build up is the one that is read off their list. -/
theorem ofCalls_eq_readOff (calls : List BuilderCall) : ofCalls calls = readOff calls := by
  induction calls using List.reverseRecOn with
  | nil => rfl
  | append_singleton calls call ih =>
    rw [ofCalls_append, readOff_concat, ih]
    rfl

/-! ## What is stored -/

/-- What a configuration stores depends on whether it wants the core constants, and on the order
of its constants of each name. -/
theorem alike_constantTable {c d : Config} (core : c.coreConstants = d.coreConstants)
    (constants : ∀ name, (c.constants.filter fun e => e.1 = name) =
      d.constants.filter fun e => e.1 = name) :
    c.constantTable.Alike d.constantTable := by
  intro name
  have hcore : c.core = d.core := by rw [Config.core, Config.core, core]
  have hlast : c.constants.reverse.lookup name = d.constants.reverse.lookup name := by
    rw [← Table.lookup_filter_name, List.filter_reverse, constants, ← List.filter_reverse,
      Table.lookup_filter_name]
  rw [get?_constantTable, get?_constantTable, hcore, hlast]

end Config

namespace BuilderCall.SameEffect

variable {calls others : List BuilderCall}

/-- Calls of the same effect store the same constants. -/
theorem alike_constantTable (h : SameEffect calls others) :
    (Config.ofCalls calls).constantTable.Alike (Config.ofCalls others).constantTable := by
  rw [Config.ofCalls_eq_readOff, Config.ofCalls_eq_readOff]
  apply Config.alike_constantTable
  · exact decide_eq_decide.mpr h.core
  · exact h.constants

/-- Calls of the same effect report the same at the creation of a context. -/
theorem creationEvents (h : SameEffect calls others) :
    Context.creationEvents (Config.ofCalls calls) =
      Context.creationEvents (Config.ofCalls others) := by
  have hcapacity : (Config.ofCalls calls).stackCapacity =
      (Config.ofCalls others).stackCapacity := by
    rw [Config.ofCalls_eq_readOff, Config.ofCalls_eq_readOff]
    exact h.capacity
  rw [Context.creationEvents, Context.creationEvents, hcapacity, h.alike_constantTable.size]

end BuilderCall.SameEffect

/-! ## The host over the core -/

/-- No core constant has the name of a keyword. -/
theorem ConstantTable.parse_of_mem_core {name : ByteString}
    (h : name ∈ core.map Prod.fst) : Keyword.parse name = none := by
  have hall : ∀ other ∈ core.map Prod.fst, Keyword.parse other = none := by decide +kernel
  exact hall name h

/-- The constant of a name that was defined last means what it was defined as, whether the core
constants were asked for before or after. -/
theorem Config.resolve_ofCalls_of_last (before : List BuilderCall) {later : List BuilderCall}
    {name : ByteString} (v : Value) (hk : Keyword.parse name = none) (last : ∀ w, .constant name w ∉ later) :
    (ofCalls (before ++ .constant name v :: later)).constantTable.resolve name = some v := by
  have hlast : ∀ e ∈ later.filterMap BuilderCall.constant?, e.1 ≠ name := by
    rintro ⟨other, w⟩ he rfl
    rcases List.mem_filterMap.mp he with ⟨call, hcall, hconstant⟩
    cases call with
    | coreConstants | stackCapacity => cases hconstant
    | constant key u =>
      cases hconstant
      exact last w hcall
  have hconstants : (readOff (before ++ .constant name v :: later)).constants =
      before.filterMap BuilderCall.constant? ++
        (name, v) :: later.filterMap BuilderCall.constant? := by
    simp [readOff, BuilderCall.constant?]
  rw [ofCalls_eq_readOff, ConstantTable.resolve_of_not_keyword _ hk, get?_constantTable,
    hconstants, Table.lookup_reverse_last _ v hlast, Option.some_or]

end ExecContext
