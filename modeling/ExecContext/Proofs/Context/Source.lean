import ExecContext.Proofs.Context.FrameLog
import Mathlib.Logic.Function.Basic

/-!
# Where restored chains come from

Every restored event stems from a saved event: the one that reported the save by which the
chain's handle was issued.  A handle is restored at most once, so that no two restored events
stem from the same saved event; and a chain does not change while it waits, so that both
events carry one depth.

Main results:

- Definition `RestoresMatched`: each restored event has a saved event of its own before it.
- Definition `TracedBy`: a log with the saved events that its restored events and the waiting
  chains stem from.
- Theorem `Moves.traced`: a step keeps the log traced.
-/

namespace ExecContext

variable {F : Type}

/-- Each restored event of a log can be matched to a saved event of its own, earlier in the log
and of the same depth. -/
def RestoresMatched (log : List Event) : Prop :=
  ∃ source : Nat → Nat,
    (∀ k d, log[k]? = some (.stackRestored d) →
      source k < k ∧ log[source k]? = some (.stackSaved d)) ∧
    ∀ j k d e, log[j]? = some (.stackRestored d) → log[k]? = some (.stackRestored e) →
      source j = source k → j = k

/-- The restored events of a log and the chains that wait stem from saved events of the log, no
two of them from the same: the restored event at `k` from that at `source k`, the chain of handle
`h` from that at `origin h`. -/
structure TracedBy (log : List Event) (p : SavedPool F) (source origin : Nat → Nat) : Prop where
  restored : ∀ k d, log[k]? = some (.stackRestored d) →
    source k < k ∧ log[source k]? = some (.stackSaved d)
  restoredApart : ∀ j k d e, log[j]? = some (.stackRestored d) →
    log[k]? = some (.stackRestored e) → source j = source k → j = k
  waiting : ∀ h c, p.get? h = some c → log[origin h]? = some (.stackSaved c.depth)
  waitingApart : ∀ g h c d, p.get? g = some c → p.get? h = some d → origin g = origin h → g = h
  /-- What a chain stems from was not yet restored. -/
  unused : ∀ h k c d, p.get? h = some c → log[k]? = some (.stackRestored d) →
    origin h ≠ source k

/-- The saved events that restored events and waiting chains stem from can be told. -/
def Traced (log : List Event) (p : SavedPool F) : Prop :=
  ∃ source origin, TracedBy log p source origin

theorem Traced.restoresMatched {log : List Event} {p : SavedPool F} (h : Traced log p) :
    RestoresMatched log := by
  rcases h with ⟨source, origin, h⟩
  exact ⟨source, h.restored, h.restoredApart⟩

/-! ## One more event -/

theorem getElem?_concat_eq_some_iff {log : List Event} {d e : Event} {k : Nat} :
    (log ++ [e])[k]? = some d ↔ log[k]? = some d ∨ k = log.length ∧ e = d := by
  rcases Nat.lt_trichotomy k log.length with hlt | heq | hgt
  · simp [List.getElem?_append_left hlt, Nat.ne_of_lt hlt]
  · simp [heq]
  · have hne : k ≠ log.length := Nat.ne_of_gt hgt
    simp [List.getElem?_append_right (Nat.le_of_lt hgt), hne,
      Nat.sub_ne_zero_of_lt hgt, Nat.le_of_lt hgt]

theorem lt_length_of_getElem?_eq_some {log : List Event} {e : Event} {k : Nat}
    (h : log[k]? = some e) : k < log.length :=
  (List.getElem?_eq_some_iff.mp h).1

namespace TracedBy

variable {log : List Event} {p q : SavedPool F} {source origin : Nat → Nat}

/-- Fewer chains wait. -/
theorem of_get? (h : TracedBy log p source origin)
    (hq : ∀ k c, q.get? k = some c → p.get? k = some c) : TracedBy log q source origin where
  restored := h.restored
  restoredApart := h.restoredApart
  waiting k c hc := h.waiting k c (hq k c hc)
  waitingApart g k c d hc hd := h.waitingApart g k c d (hq g c hc) (hq k d hd)
  unused g k c d hc := h.unused g k c d (hq g c hc)

/-- An event that is not a restore. -/
theorem concat (h : TracedBy log p source origin) {e : Event}
    (he : ∀ d, e ≠ Event.stackRestored d) : TracedBy (log ++ [e]) p source origin := by
  have hold : ∀ k d : Nat, (log ++ [e])[k]? = some (.stackRestored d) →
      log[k]? = some (.stackRestored d) := by
    intro k d hk
    rcases getElem?_concat_eq_some_iff.mp hk with hk | ⟨-, hd⟩
    · exact hk
    · exact absurd hd (he d)
  constructor
  · intro k d hk
    rcases h.restored k d (hold k d hk) with ⟨hlt, hsaved⟩
    exact ⟨hlt, getElem?_concat_eq_some_iff.mpr (.inl hsaved)⟩
  · intro j k d d' hj hk
    exact h.restoredApart j k d d' (hold j d hj) (hold k d' hk)
  · intro k c hc
    exact getElem?_concat_eq_some_iff.mpr (.inl (h.waiting k c hc))
  · exact h.waitingApart
  · intro g k c d hc hk
    exact h.unused g k c d hc (hold k d hk)

/-- A save: the new chain stems from the new event. -/
theorem save (h : TracedBy log p source origin) (c : SavedChain F) :
    TracedBy (log ++ [.stackSaved c.depth]) (p.issue c) source
      (Function.update origin p.nextHandle log.length) := by
  have hlog := h.concat (e := .stackSaved c.depth) (by simp)
  -- What the earlier chains stem from stands before the new event.
  have hearlier : ∀ g d, p.get? g = some d → origin g ≠ log.length := by
    intro g d hd
    exact Nat.ne_of_lt (lt_length_of_getElem?_eq_some (h.waiting g d hd))
  constructor
  · exact hlog.restored
  · exact hlog.restoredApart
  · intro g d hd
    rw [SavedPool.get?_issue] at hd
    by_cases hg : g = p.nextHandle
    · rw [if_pos hg] at hd
      cases hd
      rw [hg, Function.update_self]
      exact getElem?_concat_eq_some_iff.mpr (.inr ⟨rfl, rfl⟩)
    · rw [if_neg hg] at hd
      rw [Function.update_of_ne hg]
      exact hlog.waiting g d hd
  · intro g k d d' hd hd' heq
    rw [SavedPool.get?_issue] at hd hd'
    by_cases hg : g = p.nextHandle
    · by_cases hk : k = p.nextHandle
      · rw [hg, hk]
      · rw [if_neg hk] at hd'
        rw [hg, Function.update_self, Function.update_of_ne hk] at heq
        exact absurd heq.symm (hearlier k d' hd')
    · rw [if_neg hg] at hd
      by_cases hk : k = p.nextHandle
      · rw [hk, Function.update_self, Function.update_of_ne hg] at heq
        exact absurd heq (hearlier g d hd)
      · rw [if_neg hk] at hd'
        rw [Function.update_of_ne hg, Function.update_of_ne hk] at heq
        exact h.waitingApart g k d d' hd hd' heq
  · intro g k d d' hd hk
    rw [SavedPool.get?_issue] at hd
    by_cases hg : g = p.nextHandle
    · -- A restored event before the new event stems from one before it.
      rw [hg, Function.update_self]
      rcases getElem?_concat_eq_some_iff.mp hk with hk | ⟨-, hne⟩
      · have hlt := Nat.lt_trans (h.restored k d' hk).1 (lt_length_of_getElem?_eq_some hk)
        exact Nat.ne_of_gt hlt
      · cases hne
    · rw [if_neg hg] at hd
      rw [Function.update_of_ne hg]
      exact hlog.unused g k d d' hd hk

/-- A restore: the new event stems from what its chain stems from. -/
theorem restore (h : TracedBy log p source origin) {g : Nat} {c : SavedChain F}
    (hc : p.get? g = some c) :
    TracedBy (log ++ [.stackRestored c.depth]) (p.remove g)
      (Function.update source log.length (origin g)) origin := by
  have hsaved := h.waiting g c hc
  have hrest : ∀ k d, (p.remove g).get? k = some d → k ≠ g ∧ p.get? k = some d := by
    intro k d hd
    rw [SavedPool.get?_remove] at hd
    by_cases hk : k = g
    · rw [if_pos hk] at hd
      cases hd
    · rw [if_neg hk] at hd
      exact ⟨hk, hd⟩
  -- The earlier restored events keep their sources.
  have hkeeps : ∀ k d, log[k]? = some (.stackRestored d) →
      Function.update source log.length (origin g) k = source k := by
    intro k d hk
    exact Function.update_of_ne (Nat.ne_of_lt (lt_length_of_getElem?_eq_some hk)) _ _
  constructor
  · intro k d hk
    rcases getElem?_concat_eq_some_iff.mp hk with hk | ⟨rfl, hd⟩
    · rw [hkeeps k d hk]
      rcases h.restored k d hk with ⟨hlt, hs⟩
      exact ⟨hlt, getElem?_concat_eq_some_iff.mpr (.inl hs)⟩
    · cases hd
      rw [Function.update_self]
      exact ⟨lt_length_of_getElem?_eq_some hsaved,
        getElem?_concat_eq_some_iff.mpr (.inl hsaved)⟩
  · intro j k d d' hj hk heq
    rcases getElem?_concat_eq_some_iff.mp hj with hj | ⟨rfl, -⟩
    · rw [hkeeps j d hj] at heq
      rcases getElem?_concat_eq_some_iff.mp hk with hk | ⟨rfl, -⟩
      · rw [hkeeps k d' hk] at heq
        exact h.restoredApart j k d d' hj hk heq
      · rw [Function.update_self] at heq
        exact absurd heq.symm (h.unused g j c d hc hj)
    · rw [Function.update_self] at heq
      rcases getElem?_concat_eq_some_iff.mp hk with hk | ⟨rfl, -⟩
      · rw [hkeeps k d' hk] at heq
        exact absurd heq (h.unused g k c d' hc hk)
      · rfl
  · intro k d hd
    exact getElem?_concat_eq_some_iff.mpr (.inl (h.waiting k d (hrest k d hd).2))
  · intro j k d d' hj hk
    exact h.waitingApart j k d d' (hrest j d hj).2 (hrest k d' hk).2
  · intro j k d d' hj hk
    rcases hrest j d hj with ⟨hjg, hd⟩
    rcases getElem?_concat_eq_some_iff.mp hk with hk | ⟨rfl, -⟩
    · rw [hkeeps k d' hk]
      exact h.unused j k d d' hd hk
    · rw [Function.update_self]
      intro heq
      exact hjg (h.waitingApart j g d c hd hc heq)

end TracedBy

/-! ## One more step -/

namespace Traced

variable {log : List Event} {p : SavedPool F}

theorem start : Traced [] (SavedPool.empty : SavedPool F) := by
  refine ⟨id, id, ?_, ?_, ?_, ?_, ?_⟩
  · intro k d hk
    cases hk
  · intro j k d e hj
    cases hj
  · intro h c hc
    cases hc
  · intro g h c d hc
    cases hc
  · intro h k c d hc
    cases hc

/-- Events that are no restores. -/
theorem append (h : Traced log p) {es : List Event}
    (hes : ∀ e ∈ es, ∀ d, e ≠ Event.stackRestored d) : Traced (log ++ es) p := by
  induction es generalizing log with
  | nil => rwa [List.append_nil]
  | cons e es ih =>
    rcases h with ⟨source, origin, h⟩
    rw [List.append_cons]
    apply ih
    · exact ⟨source, origin, h.concat (hes e List.mem_cons_self)⟩
    · intro e' he'
      exact hes e' (List.mem_cons_of_mem e he')

theorem remove (h : Traced log p) (g : Nat) : Traced log (p.remove g) := by
  rcases h with ⟨source, origin, h⟩
  refine ⟨source, origin, h.of_get? ?_⟩
  intro k c hc
  rw [SavedPool.get?_remove] at hc
  split at hc
  · cases hc
  · exact hc

end Traced

/-- After a step the log can still be traced. -/
theorem Moves.traced {frames left : List F} {p q : SavedPool F} {es log : List Event}
    (moves : Moves frames p es left q) (h : Traced log p) : Traced (log ++ es) q := by
  cases moves with
  | still silent same =>
    apply h.append
    intro e he d heq
    have hstill := silent e he
    rw [heq] at hstill
    cases hstill
  | push | pop => exact h.append (by simp)
  | save frames p f =>
    rcases h with ⟨source, origin, h⟩
    exact ⟨source, _, h.save ⟨f, frames⟩⟩
  | release frames p g =>
    rw [List.append_nil]
    exact h.remove g
  | restore found =>
    rcases h with ⟨source, origin, h⟩
    exact ⟨_, origin, h.restore found⟩
  | resume found =>
    rcases h with ⟨source, origin, h⟩
    rw [List.append_cons]
    exact Traced.append ⟨_, origin, h.restore found⟩ (by simp)

end ExecContext
