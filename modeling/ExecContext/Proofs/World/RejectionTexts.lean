import ExecContext.Branch
import ExecContext.Proofs.Constant.Rejection
import ExecContext.Proofs.Run.Transcript
import ExecContext.Proofs.World.DeclarationLog

/-!
# Rejections told apart by their texts

Tables and contexts reject declarations of constants at any time, and their users see texts: the
message of the error that is answered, and what a context writes to its log.  Wherever two texts
come from, they are the same exactly if the declarations were rejected for the same reason and
their names are shown alike; and names that are shown alike are rejected for the same reason.

Main results:

- Theorem `ContextWorld.Rejects.events`: a context reports each rejection once, with its text.
- Theorem `ShownOf.text_eq`: whichever way a text is shown, it is the message of the name's error.
- Theorem `rejections_told_apart`: the texts of two rejections.
-/

namespace ExecContext

/-! ## Rejections in runs -/

/-- In a run of tables and of copies taken of them, this is a reply that rejects a constant of the
name with the error. -/
structure ConstantTable.Rejects (bs : Branches ConstantTable)
    (is : List (BranchStep ConstantStep)) (name : ByteString) (error : ConstantError)
    (r : Reply (BranchAnswer (Observed ConstantAnswer))) : Prop where
  declares : ∃ branch v, (.on branch (.declare name v), r) ∈
    is.zip (run (Branches.step ConstantTable.observedStep) bs is).1
  rejected : ∃ o, r.answer = .answered o ∧ o.result = .rejected error

/-- In a run of contexts, this is a reply that rejects a constant of the name with the error. -/
structure ContextWorld.Rejects {F φ : Type} {n : Nat} [FilterRule φ] (w : ContextWorld F φ n)
    (is : List (Addressed n (ContextStep F φ))) (name : ByteString) (error : ConstantError)
    (r : Reply (Observed (ContextAnswer F φ))) : Prop where
  declares : ∃ t v, (⟨t, .constant (.declare name v)⟩, r) ∈ is.zip (run step w is).1
  rejected : r.answer.result = .constant (.rejected error)

/-- The text is shown of a constant of the name that was rejected with the error. -/
inductive ShownOf (name : ByteString) (error : ConstantError) : String → Prop
  /-- It is the message of an error that a table answers with, -/
  | byTable {bs : Branches ConstantTable} {is : List (BranchStep ConstantStep)}
      {r : Reply (BranchAnswer (Observed ConstantAnswer))}
      (rejects : ConstantTable.Rejects bs is name error r) : ShownOf name error error.message
  /-- or of one that a context answers with, -/
  | byContext {F φ : Type} {n : Nat} [FilterRule φ] {w : ContextWorld F φ n}
      {is : List (Addressed n (ContextStep F φ))} {r : Reply (Observed (ContextAnswer F φ))}
      (rejects : w.Rejects is name error r) : ShownOf name error error.message
  /-- or the error field of an event that the context reports then. -/
  | inLog {F φ : Type} {n : Nat} [FilterRule φ] {w : ContextWorld F φ n}
      {is : List (Addressed n (ContextStep F φ))} {r : Reply (Observed (ContextAnswer F φ))}
      (rejects : w.Rejects is name error r) {e : Event} (reported : e ∈ r.events) {text : String}
      (field : ("error", text) ∈ e.fields) : ShownOf name error text

variable {name other : ByteString} {error error' : ConstantError}

/-- A table rejects a name with the name's error. -/
theorem ConstantTable.Rejects.error_eq {bs : Branches ConstantTable}
    {is : List (BranchStep ConstantStep)} {r : Reply (BranchAnswer (Observed ConstantAnswer))}
    (h : Rejects bs is name error r) : error = .ofName name := by
  rcases h.declares with ⟨branch, v, hmem⟩
  rcases h.rejected with ⟨o, hanswer, hresult⟩
  rcases exists_state_of_mem_zip hmem with ⟨u, rfl⟩
  cases ht : u.states[branch]? with
  | none =>
    rw [Branches.step_on_absent ht] at hanswer
    cases hanswer
  | some t =>
    rw [Branches.step_on ht] at hanswer
    cases hanswer
    exact eq_ofName_of_rejected hresult

namespace ContextWorld.Rejects

variable {F φ : Type} {n : Nat} [FilterRule φ] {w : ContextWorld F φ n}
  {is : List (Addressed n (ContextStep F φ))} {r : Reply (Observed (ContextAnswer F φ))}

/-- Some context has answered and reported a declaration of the name as in the reply. -/
theorem exists_constantStep (h : w.Rejects is name error r) :
    ∃ (c : Context F φ) (v : Value), (c.constantStep (.declare name v)).answer = .rejected error ∧
      (c.constantStep (.declare name v)).events = r.events := by
  rcases h.declares with ⟨t, v, hmem⟩
  rcases exists_state_of_mem_zip hmem with ⟨u, rfl⟩
  exact ⟨u.member t, v, ContextAnswer.constant.inj h.rejected, rfl⟩

/-- A context rejects a name with the name's error, too. -/
theorem error_eq (h : w.Rejects is name error r) : error = .ofName name := by
  rcases h.exists_constantStep with ⟨c, v, hanswer, -⟩
  rw [Context.answer_constantStep] at hanswer
  exact ConstantTable.eq_ofName_of_rejected hanswer

/-- A context reports each rejection once, with its text. -/
theorem events (h : w.Rejects is name error r) :
    r.events = [.constantRejected error] ∧
      (Event.constantRejected error).fields = [("error", error.message)] := by
  rcases h.exists_constantStep with ⟨c, v, hanswer, hevents⟩
  refine ⟨?_, rfl⟩
  rw [← hevents]
  rcases c.events_declareConstant name v with ⟨e, he, hreported⟩ | ⟨hdeclared, -⟩
  · rw [hanswer] at he
    cases he
    exact hreported
  · rw [hanswer] at hdeclared
    cases hdeclared

end ContextWorld.Rejects

/-! ## Texts -/

namespace ShownOf

variable {text text' : String}

theorem error_eq (h : ShownOf name error text) : error = .ofName name := by
  cases h with
  | byTable rejects => exact rejects.error_eq
  | byContext rejects => exact rejects.error_eq
  | inLog rejects => exact rejects.error_eq

/-- Whichever way a text is shown, it is the message of the error. -/
theorem text_eq (h : ShownOf name error text) : text = error.message := by
  cases h with
  | byTable | byContext => rfl
  | inLog rejects reported field =>
    rcases rejects.events with ⟨hevents, hfields⟩
    rw [hevents, List.mem_singleton] at reported
    rw [reported, hfields, List.mem_singleton] at field
    exact congrArg Prod.snd field

/-- Two texts are the same exactly if the errors are. -/
theorem text_eq_text_iff (h : ShownOf name error text) (h' : ShownOf other error' text') :
    text = text' ↔ error = error' := by
  rw [h.text_eq, h'.text_eq, ConstantError.message_inj]

/-- The error names what is shown of the name. -/
theorem name_error (h : ShownOf name error text) : error.name = name.display := by
  rw [h.error_eq, ConstantError.name_ofName]

end ShownOf

/-- The texts of errors are the same exactly if the errors are, in their reasons and in their names,
whatever the names contain.  So two texts that are shown of rejected constants, by whatever tables or
contexts and at whatever points of their runs, are the same exactly if the rejections have the same
reason and the names are shown alike; for that it is enough that they are shown alike. -/
theorem rejections_told_apart :
    (∀ e f : ConstantError, (e.message = f.message ↔ e = f) ∧
      (e = f ↔ e.reason = f.reason ∧ e.name = f.name)) ∧
    (∀ (name other : ByteString) (error error' : ConstantError) (text text' : String),
      ShownOf name error text → ShownOf other error' text' →
        (text = text' ↔ error.reason = error'.reason ∧ name.display = other.display) ∧
        (text = text' ↔ name.display = other.display)) ∧
    (∀ (name : ByteString) (error : ConstantError) (text : String), ShownOf name error text →
      (error.reason = .reserved ↔ ∃ k, Keyword.parse name = some k)) ∧
    ∀ (F φ : Type) (n : Nat) [FilterRule φ] (w : ContextWorld F φ n)
      (is : List (Addressed n (ContextStep F φ))) (name : ByteString) (error : ConstantError)
      (r : Reply (Observed (ContextAnswer F φ))), w.Rejects is name error r →
      r.events = [.constantRejected error] ∧
        (Event.constantRejected error).fields = [("error", error.message)] := by
  refine ⟨?_, ?_, ?_, ?_⟩
  · intro e f
    exact ⟨ConstantError.message_inj, ConstantError.eq_iff e f⟩
  · intro name other error error' text text' h h'
    rw [h.text_eq_text_iff h']
    constructor
    · rw [ConstantError.eq_iff, h.name_error, h'.name_error]
    · rw [h.error_eq, h'.error_eq, ConstantError.ofName_inj]
  · intro name error text h
    rw [h.error_eq, ConstantError.reason_ofName_eq_reserved_iff]
  · intro F φ n _ w is name error r h
    exact h.events

/-- Two bytes that are no UTF-8 are shown alike.  So a copy of a table answers with the text when
the one is redefined that a context logs when the other is; a keyword is rejected with another. -/
theorem rejections_told_apart_across_log :
    ShownOf [0xFF] (.redefined "\uFFFD") "Constant \uFFFD already defined" ∧
      ShownOf [0xC3] (.redefined "\uFFFD") "Constant \uFFFD already defined" ∧
      ShownOf [0x4E, 0x75, 0x6C, 0x6C] (.reserved "Null")
        "Null is a reserved constant and cannot be redefined" ∧
      ByteString.display [0xFF] = ByteString.display [0xC3] ∧
      "Constant \uFFFD already defined" ≠ "Null is a reserved constant and cannot be redefined" := by
  let tableSteps : List (BranchStep ConstantStep) :=
    [.on 0 (.declare [0xFF] .null), .fork 0, .on 1 (.declare [0xFF] (.int 1))]
  let steps : List (Addressed 1 (ContextStep Nat StockFilter)) :=
    [⟨0, .constant (.declare [0xC3] .null)⟩, ⟨0, .frame (.push 5)⟩,
      ⟨0, .constant (.declare [0xC3] .null)⟩,
      ⟨0, .constant (.declare [0x4E, 0x75, 0x6C, 0x6C] .null)⟩]
  have hcopy : ConstantTable.Rejects (.single .empty) tableSteps [0xFF] (.redefined "\uFFFD")
      { answer := .answered ⟨.rejected (.redefined "\uFFFD"), 1, false⟩ } :=
    ⟨⟨1, .int 1, List.mem_of_getElem? (show (_ : List _)[2]? = some _ from rfl)⟩, _, rfl, rfl⟩
  have hlogged : ContextWorld.Rejects { members := #v[.create {}] } steps [0xC3]
      (.redefined "\uFFFD")
      { answer := ⟨.constant (.rejected (.redefined "\uFFFD")), 1, false⟩
        events := [.constantRejected (.redefined "\uFFFD")] } :=
    ⟨⟨0, .null, List.mem_of_getElem? (show (_ : List _)[2]? = some _ from rfl)⟩, rfl⟩
  have hkeyword : ContextWorld.Rejects { members := #v[.create {}] } steps
      [0x4E, 0x75, 0x6C, 0x6C] (.reserved "Null")
      { answer := ⟨.constant (.rejected (.reserved "Null")), 1, false⟩
        events := [.constantRejected (.reserved "Null")] } :=
    ⟨⟨0, .null, List.mem_of_getElem? (show (_ : List _)[3]? = some _ from rfl)⟩, rfl⟩
  have htext : (ConstantError.redefined "\uFFFD").message = "Constant \uFFFD already defined" := by
    decide
  have hother : (ConstantError.reserved "Null").message =
      "Null is a reserved constant and cannot be redefined" := by decide
  have hshown := ShownOf.byTable hcopy
  have hshown' := ShownOf.inLog hlogged List.mem_cons_self List.mem_cons_self
  have hreserved := ShownOf.byContext hkeyword
  rw [htext] at hshown hshown'
  rw [hother] at hreserved
  have halike := rejections_told_apart.2.1 _ _ _ _ _ _ hshown hshown'
  have hapart := rejections_told_apart.2.1 _ _ _ _ _ _ hshown hreserved
  refine ⟨hshown, hshown', hreserved, halike.2.mp rfl, ?_⟩
  intro h
  exact absurd (hapart.1.mp h).1 (by decide)

end ExecContext
