import ExecContext.Frame.Stack

/-!
# Saved chains and their handles

Detached chains wait in a pool.  Each gets the next free number as its handle;
taking a chain out uses its handle up for good.

Main results:

- Theorem `SavedPool.get?_issue`: a new handle finds its chain, and the earlier
  handles find what they found before.
- Theorem `SavedPool.get?_remove`: a used handle finds nothing, and the others find
  what they found before.
-/

namespace ExecContext

/-- Chains by handle; a handle that is used up holds nothing. -/
structure SavedPool (F : Type) where
  slots : List (Option (SavedChain F)) := []
  deriving DecidableEq

namespace SavedPool

variable {F : Type}

/-- The pool in which no handle was issued. -/
def empty : SavedPool F :=
  {}

/-- The handle that is issued next. -/
def nextHandle (p : SavedPool F) : Nat :=
  p.slots.length

/-- Keeps a chain under the next handle. -/
def issue (p : SavedPool F) (c : SavedChain F) : SavedPool F :=
  ⟨p.slots ++ [some c]⟩

/-- The chain that waits under a handle. -/
def get? (p : SavedPool F) (h : Nat) : Option (SavedChain F) :=
  (p.slots[h]?).join

/-- Uses a handle up. -/
def remove (p : SavedPool F) (h : Nat) : SavedPool F :=
  ⟨p.slots.set h none⟩

/-- The chains that wait, in the order of their handles. -/
def outstanding (p : SavedPool F) : List (SavedChain F) :=
  p.slots.filterMap id

/-- A new handle finds its chain; all others find what they found before. -/
theorem get?_issue (p : SavedPool F) (c : SavedChain F) (h : Nat) :
    (p.issue c).get? h = if h = p.nextHandle then some c else p.get? h := by
  unfold get? issue nextHandle
  by_cases hlt : h < p.slots.length
  · simp [List.getElem?_append_left hlt, Nat.ne_of_lt hlt]
  · by_cases heq : h = p.slots.length
    · simp [heq]
    · have hgt : p.slots.length < h := by omega
      have h1 : (p.slots ++ [some c])[h]? = none := by
        rw [List.getElem?_eq_none_iff]
        simp
        omega
      have h2 : p.slots[h]? = none := by
        rw [List.getElem?_eq_none_iff]
        omega
      simp [h1, h2, heq]

/-- A handle that was not issued finds nothing. -/
theorem get?_of_nextHandle_le {p : SavedPool F} {h : Nat} (hle : p.nextHandle ≤ h) :
    p.get? h = none := by
  have hn : p.slots[h]? = none := by
    rw [List.getElem?_eq_none_iff]
    exact hle
  simp [get?, hn]

/-- A used handle finds nothing; all others find what they found before. -/
theorem get?_remove (p : SavedPool F) (h k : Nat) :
    (p.remove h).get? k = if k = h then none else p.get? k := by
  unfold get? remove
  by_cases hk : k = h
  · subst hk
    by_cases hlt : k < p.slots.length
    · simp [hlt]
    · simp [hlt]
  · simp [List.getElem?_set_ne (fun e => hk e.symm), hk]

end SavedPool

end ExecContext
