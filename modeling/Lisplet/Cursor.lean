import Lisplet.Text.Decimal
/-!
# A position in a non-empty list

A cursor always stands on an item. A move past either end is refused.
-/

namespace Lisplet

structure Cursor (α : Type) where
  items : List α
  position : Nat
  inBounds : position < items.length

inductive CursorError where
  /-- There is no item to stand on. -/
  | empty
  | outOfBounds (index length : Nat)
deriving DecidableEq

def CursorError.message : CursorError → String
  | empty => "Cannot create a cursor over an empty sequence."
  | outOfBounds index length =>
    "Cursor position " ++ Text.Decimal.ofNat index ++
      " is out of bounds for a sequence of length " ++ Text.Decimal.ofNat length ++ "."

namespace Cursor

variable {α : Type}

/-- The items from index `start` through index `stop`; none if `start` lies after `stop`. -/
def span (items : List α) (start stop : Nat) : List α := (items.take (stop + 1)).drop start

/-- A cursor on the first item. -/
def first (items : List α) : Except CursorError (Cursor α) :=
  if h : 0 < items.length then .ok ⟨items, 0, h⟩ else .error .empty

/-! ## What the cursor sees -/

def current (c : Cursor α) : α := c.items.get ⟨c.position, c.inBounds⟩

/-- The items after the current one. -/
def following (c : Cursor α) : List α := c.items.drop (c.position + 1)

/-- How many items there are from the current one to the end. -/
def remaining (c : Cursor α) : Nat := c.items.length - c.position

def hasNext (c : Cursor α) : Bool := c.position + 1 < c.items.length

def hasPrevious (c : Cursor α) : Bool := 0 < c.position

def peekNext (c : Cursor α) : Option α := c.items[c.position + 1]?

def peekPrevious (c : Cursor α) : Option α :=
  if c.position = 0 then none else c.items[c.position - 1]?

/-- The items from `start` through the current one; none if `start` lies after it. -/
def spanFrom (c : Cursor α) (start : Nat) : List α := span c.items start c.position

/-! ## Moves -/

def next? (c : Cursor α) : Option (Cursor α) :=
  if h : c.position + 1 < c.items.length then some ⟨c.items, c.position + 1, h⟩ else none

def previous? (c : Cursor α) : Option (Cursor α) :=
  if c.position = 0 then none
  else some ⟨c.items, c.position - 1, Nat.lt_of_le_of_lt (Nat.sub_le _ _) c.inBounds⟩

def seek (c : Cursor α) (index : Nat) : Except CursorError (Cursor α) :=
  if h : index < c.items.length then .ok ⟨c.items, index, h⟩
  else .error (.outOfBounds index c.items.length)

inductive Move where
  | next
  | previous
  | seek (index : Nat)
deriving DecidableEq

/-- Makes a move and says whether it was made. A move that is refused leaves the cursor where it
is. -/
def move (c : Cursor α) : Move → Except CursorError Bool × Cursor α
  | .next => (.ok c.next?.isSome, c.next?.getD c)
  | .previous => (.ok c.previous?.isSome, c.previous?.getD c)
  | .seek index =>
    match c.seek index with
    | .ok d => (.ok true, d)
    | .error e => (.error e, c)

/-- The cursor after one move after another. -/
def moveAll (c : Cursor α) (moves : List Move) : Cursor α :=
  moves.foldl (fun c m => (c.move m).2) c

/-- Moves forward `count` times, or to the last item. -/
def advance (c : Cursor α) : Nat → Cursor α
  | 0 => c
  | count + 1 => (c.next?.getD c).advance count

theorem ext {c d : Cursor α} (hi : c.items = d.items) (hp : c.position = d.position) : c = d := by
  cases c
  cases d
  simp_all

theorem next?_eq_some_iff {c d : Cursor α} :
    c.next? = some d ↔ d.items = c.items ∧ d.position = c.position + 1 := by
  unfold next?
  constructor
  · intro h
    split at h
    · cases h
      exact ⟨rfl, rfl⟩
    · cases h
  · rintro ⟨hi, hp⟩
    have hlt : c.position + 1 < c.items.length := by
      rw [← hi, ← hp]
      exact d.inBounds
    rw [dif_pos hlt, Option.some.injEq]
    exact ext hi.symm hp.symm

theorem previous?_eq_some_iff {c d : Cursor α} :
    c.previous? = some d ↔ d.items = c.items ∧ c.position = d.position + 1 := by
  unfold previous?
  constructor
  · intro h
    split at h
    · cases h
    · cases h
      exact ⟨rfl, by simp only; omega⟩
  · rintro ⟨hi, hp⟩
    rw [if_neg (by omega), Option.some.injEq]
    exact ext hi.symm (by simp [hp])

theorem drop_position (c : Cursor α) : c.items.drop c.position = c.current :: c.following :=
  List.drop_eq_getElem_cons c.inBounds

/-- The items are those before the current one, the current one and those after it. -/
theorem take_append_current (c : Cursor α) :
    c.items.take c.position ++ c.current :: c.following = c.items := by
  rw [← drop_position, List.take_append_drop]

theorem position_add_lt_iff {c : Cursor α} {count : Nat} :
    c.position + count < c.items.length ↔ count ≤ c.following.length := by
  have hc := c.inBounds
  simp only [following, List.length_drop]
  omega

/-- Moving forward is not refused as long as items follow. -/
theorem advance_eq {c : Cursor α} {count : Nat} (h : c.position + count < c.items.length) :
    c.advance count = ⟨c.items, c.position + count, h⟩ := by
  induction count generalizing c with
  | zero => rfl
  | succ count ih =>
    have hnext : c.next? = some ⟨c.items, c.position + 1, by omega⟩ :=
      next?_eq_some_iff.2 ⟨rfl, rfl⟩
    rw [advance, hnext, Option.getD_some, ih (by simp only; omega)]
    simp only [Nat.add_assoc, Nat.add_comm 1 count]

theorem remaining_next {c d : Cursor α} (h : c.next? = some d) : d.remaining < c.remaining := by
  obtain ⟨hitems, hposition⟩ := next?_eq_some_iff.1 h
  have hd := d.inBounds
  rw [remaining, remaining, ← hitems, hposition]
  omega

theorem remaining_advance (c : Cursor α) (count : Nat) :
    (c.advance count).remaining ≤ c.remaining := by
  induction count generalizing c with
  | zero => exact Nat.le_refl _
  | succ count ih =>
    refine Nat.le_trans (ih _) ?_
    cases h : c.next? with
    | none => exact Nat.le_refl _
    | some d => exact Nat.le_of_lt (remaining_next h)

end Cursor

end Lisplet
