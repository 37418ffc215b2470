import ExecContext.Context.Lemmas
import ExecContext.Proofs.Constant.Meaning
import ExecContext.Proofs.Run.View
import ExecContext.Proofs.Table.Names

/-!
# The constants of a context

A context's constants come in layers.  The keywords stand over all else; then come the
host's constants, the later over the earlier, and the core constants if they are wanted;
and below them what programs declare, the earlier over the later.  Which steps are taken on
symbols, on frames or in other contexts plays no part.

Main results:

- Theorem `Config.get?_constantTable`: what a configuration stores.
- Theorem `Config.size_constantTable`: how many constants it stores.
- Theorem `ContextWorld.constants_run`: a run, seen on the constants of one context.
- Theorem `ContextWorld.constants_by_layers`: what constants mean, and how declarations end,
  after any run.
-/

namespace ExecContext

variable {F φ : Type} {n : Nat}

/-! ## The constants of a configuration -/

namespace ConstantTable

/-- No core constant is listed twice. -/
theorem nodup_core : (core.map Prod.fst).Nodup := by
  decide +kernel

theorem stored_insertBuiltins (t : ConstantTable) (es : List (ByteString × Value)) :
    (t.insertBuiltins es).stored = es.foldl (fun u e => u.insert e.1 e.2) t.stored := by
  induction es generalizing t with
  | nil => rfl
  | cons e es ih => exact ih (t.insertBuiltin e.1 e.2)

end ConstantTable

namespace Config

open ConstantTable

/-- The core constants that a configuration wants. -/
def core (config : Config) : List (ByteString × Value) :=
  if config.coreConstants then ConstantTable.core else []

theorem nodup_core (config : Config) : (config.core.map Prod.fst).Nodup := by
  unfold core
  split
  · exact ConstantTable.nodup_core
  · exact List.nodup_nil

/-- A configuration stores the core constants it wants and then those of the host. -/
theorem stored_constantTable (config : Config) :
    config.constantTable.stored =
      (config.core ++ config.constants).foldl (fun u e => u.insert e.1 e.2) .empty := by
  have hcore : (if config.coreConstants then ConstantTable.empty.insertBuiltins ConstantTable.core
      else ConstantTable.empty) = ConstantTable.empty.insertBuiltins config.core := by
    unfold core
    split <;> rfl
  unfold constantTable
  rw [hcore, stored_insertBuiltins, stored_insertBuiltins, List.foldl_append]
  rfl

/-- Under a name a configuration stores the host's last constant, else the core constant. -/
theorem get?_constantTable (config : Config) (name : ByteString) :
    config.constantTable.stored.get? name =
      (config.constants.reverse.lookup name).or (config.core.lookup name) := by
  rw [stored_constantTable, Table.get?_foldl_insert, Table.get?_empty, Option.or_none,
    List.reverse_append, List.lookup_append, Table.lookup_reverse config.nodup_core]

/-- A configuration stores a constant for each name it mentions. -/
theorem size_constantTable (config : Config) :
    config.constantTable.size =
      ((config.core ++ config.constants).map Prod.fst).toFinset.card := by
  apply Table.size_eq_card
  intro name
  rw [stored_constantTable, Table.mem_names_foldl_insert]
  simp

end Config

/-! ## The constants of one context -/

/-- The constant step that a step is, if it is one on the context of this number. -/
def Addressed.constantOn? (t : Fin n) (a : Addressed n (ContextStep F φ)) : Option ConstantStep :=
  match a.step with
  | .constant i => if a.target = t then some i else none
  | .frame _ | .symbol _ => none

/-- The names and values that a run declares in the context of this number, in order. -/
def declaredOn (t : Fin n) (is : List (Addressed n (ContextStep F φ))) :
    List (ByteString × Value) :=
  (is.filterMap (Addressed.constantOn? t)).filterMap ConstantStep.declaration?

namespace ContextWorld

variable [FilterRule φ]

/-- A step on the constants of a context does to them what it does to the bare table. -/
theorem constants_step_self (w : ContextWorld F φ n) {t : Fin n}
    {a : Addressed n (ContextStep F φ)} {i : ConstantStep} (ha : a.constantOn? t = some i) :
    ((w.step a).state.member t).constants = ((w.member t).constants.step i).state := by
  rcases a with ⟨u, s⟩
  cases s with
  | frame | symbol => cases ha
  | constant j =>
    by_cases hu : u = t
    · subst hu
      have hj : j = i := by simpa [Addressed.constantOn?] using ha
      subst hj
      rw [member_step_self]
      exact Context.constants_constantStep (w.member u) j
    · simp [Addressed.constantOn?, hu] at ha

/-- Every other step leaves the constants of a context alone. -/
theorem constants_step_other (w : ContextWorld F φ n) {t : Fin n}
    {a : Addressed n (ContextStep F φ)} (ha : a.constantOn? t = none) :
    ((w.step a).state.member t).constants = (w.member t).constants := by
  rcases a with ⟨u, s⟩
  by_cases hu : u = t
  · subst hu
    rw [member_step_self]
    cases s with
    | frame i => exact Context.constants_frameStep (w.member u) w.saved i
    | symbol i => exact Context.constants_symbolStep (w.member u) i
    | constant i => simp [Addressed.constantOn?] at ha
  · rw [member_step_other w u s (Ne.symm hu)]

/-- A run does to the constants of a context what its steps on them do to the bare table. -/
theorem constants_run (w : ContextWorld F φ n) (is : List (Addressed n (ContextStep F φ)))
    (t : Fin n) :
    ((run step w is).2.member t).constants =
      (run ConstantTable.step (w.member t).constants
        (is.filterMap (Addressed.constantOn? t))).2 := by
  let view : ContextWorld F φ n → ConstantTable := fun v => (v.member t).constants
  have self : ∀ v a i, a.constantOn? t = some i →
      view (step v a).state = ((view v).step i).state := by
    intro v a i ha
    exact constants_step_self v ha
  have other : ∀ v a, a.constantOn? t = none → view (step v a).state = view v := by
    intro v a ha
    exact constants_step_other v ha
  exact view_run_filterMap self other w is

end ContextWorld

/-! ## Layers -/

/-- The constants of a context are the keywords, over those of its configuration, over those
that were declared. -/
structure Context.Layered (c : Context F φ) (config : Config)
    (declared : List (ByteString × Value)) : Prop where
  /-- Three words mean null and the truth values in every case. -/
  keyword : ∀ e ∈ [("null", Value.null), ("false", .bool false), ("true", .bool true)],
    ∀ name : ByteString, name.equalsIgnoringCase (.ofString e.1) = true →
      c.fetchConstant name = some e.2
  /-- A configuration that wants the core constants has these, as they are on Linux. -/
  core : config.core = if config.coreConstants then
      ([ ("PHP_VERSION", .string (.ofString "8.2.0")),
         ("PHP_VERSION_ID", .int 80200),
         ("PHP_MAJOR_VERSION", .int 8),
         ("PHP_MINOR_VERSION", .int 2),
         ("PHP_RELEASE_VERSION", .int 0),
         ("PHP_EXTRA_VERSION", .string []),
         ("PHP_OS", .string (.ofString "Linux")),
         ("PHP_EOL", .string [0x0A]),
         ("PHP_INT_MAX", .int 9223372036854775807),
         ("PHP_INT_MIN", .int (-9223372036854775808)),
         ("PHP_INT_SIZE", .int 8),
         ("DIRECTORY_SEPARATOR", .string [0x2F]),
         ("PATH_SEPARATOR", .string [0x3A]),
         ("E_ERROR", .int 1),
         ("E_WARNING", .int 2),
         ("E_PARSE", .int 4),
         ("E_NOTICE", .int 8),
         ("E_CORE_ERROR", .int 16),
         ("E_CORE_WARNING", .int 32),
         ("E_COMPILE_ERROR", .int 64),
         ("E_COMPILE_WARNING", .int 128),
         ("E_USER_ERROR", .int 256),
         ("E_USER_WARNING", .int 512),
         ("E_USER_NOTICE", .int 1024),
         ("E_STRICT", .int 2048),
         ("E_RECOVERABLE_ERROR", .int 4096),
         ("E_DEPRECATED", .int 8192),
         ("E_USER_DEPRECATED", .int 16384),
         ("E_ALL", .int 32767) ] : List (String × Value)).map fun e => (.ofString e.1, e.2)
    else []
  /-- A name that spells no keyword means what the host gave it last, else the core constant,
  else what a program declared for it first. -/
  other : ∀ name, (∀ k : Keyword, name.equalsIgnoringCase k.spelling = false) →
    c.fetchConstant name =
      (config.constants.reverse.lookup name).or
        ((config.core.lookup name).or (declared.lookup name))
  isDefined_iff : ∀ name, c.isConstantDefined name = true ↔ (c.fetchConstant name).isSome
  reserved_iff : ∀ name v text, (c.declareConstant name v).answer = .error (.reserved text) ↔
    (∃ k : Keyword, name.equalsIgnoringCase k.spelling = true) ∧ text = name.display
  redefined_iff : ∀ name v text, (c.declareConstant name v).answer = .error (.redefined text) ↔
    (∀ k : Keyword, name.equalsIgnoringCase k.spelling = false) ∧
      (c.fetchConstant name).isSome ∧ text = name.display
  declared_iff : ∀ name v, (c.declareConstant name v).answer = .ok () ↔
    c.fetchConstant name = none

namespace Context

theorem answer_declareConstant (c : Context F φ) (name : ByteString) (v : Value) :
    (c.declareConstant name v).answer = (c.constants.declare name v).map fun _ => () := by
  cases h : c.constants.declare name v <;> simp [declareConstant, h, Except.map]

/-- How a declaration of a constant is answered. -/
theorem declareConstant_cases (c : Context F φ) (name : ByteString) (v : Value) :
    ((∃ k : Keyword, name.equalsIgnoringCase k.spelling = true) ∧
      (c.fetchConstant name).isSome ∧
      (c.declareConstant name v).answer = .error (.reserved name.display)) ∨
    ((∀ k : Keyword, name.equalsIgnoringCase k.spelling = false) ∧
      (c.fetchConstant name).isSome ∧
      (c.declareConstant name v).answer = .error (.redefined name.display)) ∨
    ((∀ k : Keyword, name.equalsIgnoringCase k.spelling = false) ∧
      c.fetchConstant name = none ∧ (c.declareConstant name v).answer = .ok ()) := by
  have hanswer := answer_declareConstant c name v
  rw [ConstantTable.declare_eq] at hanswer
  cases hk : Keyword.parse name with
  | some k =>
    have hmeaning : c.fetchConstant name = some k.value := c.constants.resolve_of_keyword hk
    refine .inl ⟨⟨k, (Keyword.parse_eq_some_iff name k).mp hk⟩, by simp [hmeaning], ?_⟩
    simpa [hk, Except.map] using hanswer
  | none =>
    have hspells := (Keyword.parse_eq_none_iff name).mp hk
    cases hmeaning : c.constants.resolve name with
    | some w =>
      refine .inr (.inl ⟨hspells, by simp [fetchConstant, hmeaning], ?_⟩)
      simpa [hk, hmeaning, Except.map] using hanswer
    | none =>
      refine .inr (.inr ⟨hspells, hmeaning, ?_⟩)
      simpa [hk, hmeaning, Except.map] using hanswer

/-- The constants of a context are layered if each name means what it does in the
configuration, or if that is nothing, what was declared for it first. -/
theorem layered_of_resolve {c : Context F φ} {config : Config}
    {declared : List (ByteString × Value)}
    (h : ∀ name, c.constants.resolve name =
      (config.constantTable.resolve name).or (declared.lookup name)) :
    c.Layered config declared where
  keyword := by
    intro e he name hname
    have hspelled : ∃ k : Keyword, ByteString.ofString e.1 = k.spelling ∧ e.2 = k.value := by
      simp only [List.mem_cons, List.not_mem_nil, or_false] at he
      rcases he with rfl | rfl | rfl
      · exact ⟨.null, by decide, rfl⟩
      · exact ⟨.false, by decide, rfl⟩
      · exact ⟨.true, by decide, rfl⟩
    rcases hspelled with ⟨k, hspelling, hvalue⟩
    rw [hspelling] at hname
    rw [hvalue]
    exact c.constants.resolve_of_keyword ((Keyword.parse_eq_some_iff name k).mpr hname)
  core := by
    unfold Config.core
    split <;> rfl
  other name hname := by
    have hk := (Keyword.parse_eq_none_iff name).mpr hname
    change c.constants.resolve name = _
    rw [h, ConstantTable.resolve_of_not_keyword _ hk, Config.get?_constantTable, Option.or_assoc]
  isDefined_iff name := by
    rw [isConstantDefined, ConstantTable.isDefined_eq_isSome_resolve]
    rfl
  reserved_iff name v text := by
    rcases declareConstant_cases c name v with
      ⟨hspelled, -, hanswer⟩ | ⟨hspells, -, hanswer⟩ | ⟨hspells, -, hanswer⟩
    · simp only [hanswer, hspelled, true_and, Except.error.injEq, ConstantError.reserved.injEq]
      exact eq_comm
    · simp [hanswer, hspells]
    · simp [hanswer, hspells]
  redefined_iff name v text := by
    rcases declareConstant_cases c name v with
      ⟨⟨k, hk⟩, -, hanswer⟩ | ⟨hspells, hsome, hanswer⟩ | ⟨-, hnone, hanswer⟩
    · have hspells : ¬ ∀ k : Keyword, name.equalsIgnoringCase k.spelling = false := by
        intro h
        rw [h k] at hk
        contradiction
      simp [hanswer, hspells]
    · simp [hanswer, hspells, hsome, eq_comm]
    · simp [hanswer, hnone]
  declared_iff name v := by
    rcases declareConstant_cases c name v with
      ⟨-, hsome, hanswer⟩ | ⟨-, hsome, hanswer⟩ | ⟨-, hnone, hanswer⟩
    · simp [hanswer, Option.isSome_iff_ne_none.mp hsome]
    · simp [hanswer, Option.isSome_iff_ne_none.mp hsome]
    · simp [hanswer, hnone]

end Context

namespace ContextWorld

variable [FilterRule φ]

/-- After any run the constants of every context are layered, and its creation reports how
many names its configuration mentions. -/
theorem constants_by_layers (configs : Vector Config n)
    (is : List (Addressed n (ContextStep F φ))) (t : Fin n) :
    ((run step (create configs) is).2.member t).Layered configs[t] (declaredOn t is) ∧
      Context.creationEvents configs[t] =
        [.contextCreated configs[t].stackCapacity
          ((configs[t].core ++ configs[t].constants).map Prod.fst).toFinset.card] := by
  constructor
  · apply Context.layered_of_resolve
    intro name
    have hstart : ((create configs : ContextWorld F φ n).member t).constants =
        configs[t].constantTable := by
      simp [create, World.member, Context.create]
    rw [constants_run, ConstantTable.resolve_run, hstart]
    rfl
  · unfold Context.creationEvents
    rw [Config.size_constantTable]

end ContextWorld

end ExecContext
