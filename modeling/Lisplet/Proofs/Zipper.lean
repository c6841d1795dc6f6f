import Lisplet.Cursor
/-!
# The cursor as a zipper

A zipper keeps the items before the current one, the current one and the items after it, and knows
of no position. Whatever moves it makes, a cursor stands where the zipper stands that makes the same
moves: `moves_as_zipper`. `move_cases` says all that one move can do, and the rest follows from it.
-/

namespace Lisplet

open Cursor (Move)

/-! ## Zippers -/

/-- A list that is cut at one of its items. -/
structure Zipper (α : Type) where
  before : List α
  current : α
  after : List α

namespace Zipper

variable {α : Type}

def items (z : Zipper α) : List α := z.before ++ [z.current] ++ z.after

def next? (z : Zipper α) : Option (Zipper α) :=
  match z.after with
  | [] => none
  | item :: rest => some ⟨z.before ++ [z.current], item, rest⟩

def previous? (z : Zipper α) : Option (Zipper α) :=
  match z.before.getLast? with
  | none => none
  | some item => some ⟨z.before.dropLast, item, z.current :: z.after⟩

/-- Cuts a list at the item that has `index` items before it. -/
def cut? (items : List α) (index : Nat) : Option (Zipper α) :=
  match items.drop index with
  | [] => none
  | item :: rest => some ⟨items.take index, item, rest⟩

/-- The zipper after a move, unless the move is refused. -/
def move? (z : Zipper α) : Move → Option (Zipper α)
  | .next => z.next?
  | .previous => z.previous?
  | .seek index => cut? z.items index

/-- The zipper after one move after another. Those that are refused do not count. -/
def moveAll (z : Zipper α) (moves : List Move) : Zipper α :=
  moves.foldl (fun z m => (z.move? m).getD z) z

theorem previous?_of_next? {z z' : Zipper α} (h : z.next? = some z') : z'.previous? = some z := by
  unfold next? at h
  split at h
  · cases h
  · next hafter =>
    cases h
    simp [previous?, ← hafter]

end Zipper

namespace Cursor

variable {α : Type} {c d : Cursor α}

/-! ## Single moves -/

theorem next?_eq_some_iff_previous? : c.next? = some d ↔ d.previous? = some c := by
  rw [next?_eq_some_iff, previous?_eq_some_iff]
  exact and_congr_left fun _ => eq_comm

theorem move_next_iff : c.move .next = (.ok true, d) ↔ c.next? = some d := by
  cases h : c.next? <;> simp [move, h]

theorem move_previous_iff : c.move .previous = (.ok true, d) ↔ c.previous? = some d := by
  cases h : c.previous? <;> simp [move, h]

/-- A step forward and the step back undo each other. -/
theorem move_next_iff_move_previous :
    c.move .next = (.ok true, d) ↔ d.move .previous = (.ok true, c) := by
  rw [move_next_iff, move_previous_iff, next?_eq_some_iff_previous?]

theorem move_seek_of_lt {index : Nat} (h : index < c.items.length) :
    c.move (.seek index) = (.ok true, ⟨c.items, index, h⟩) := by
  simp [move, seek, h]

theorem move_seek_of_le {index : Nat} (h : c.items.length ≤ index) :
    c.move (.seek index) = (.error (.outOfBounds index c.items.length), c) := by
  simp [move, seek, Nat.not_lt.2 h]

/-! ## The zipper of a cursor -/

def zipper (c : Cursor α) : Zipper α := ⟨c.items.take c.position, c.current, c.following⟩

theorem items_zipper (c : Cursor α) : c.zipper.items = c.items := by
  simp [Zipper.items, zipper, take_append_current]

theorem next?_zipper (h : c.next? = some d) : c.zipper.next? = some d.zipper := by
  obtain ⟨hi, hp⟩ := next?_eq_some_iff.1 h
  have hafter : c.following = d.current :: d.following := by
    rw [← drop_position, hi, hp, following]
  have hbefore : d.items.take d.position = c.items.take c.position ++ [c.current] := by
    rw [hi, hp]
    exact List.take_succ_eq_append_getElem c.inBounds
  simp [Zipper.next?, zipper, hafter, hbefore]

theorem cut?_position (c : Cursor α) : Zipper.cut? c.items c.position = some c.zipper := by
  simp [Zipper.cut?, zipper, drop_position]

theorem next?_zipper_of_none (h : c.next? = none) : c.zipper.next? = none := by
  have hlen : c.items.length ≤ c.position + 1 := by simpa [next?] using h
  have hafter : c.following = [] := List.drop_eq_nil_of_le hlen
  simp [Zipper.next?, zipper, hafter]

theorem previous?_zipper_of_none (h : c.previous? = none) : c.zipper.previous? = none := by
  have hp : c.position = 0 := by simpa [previous?] using h
  simp [Zipper.previous?, zipper, hp]

/-! ## Runs -/

/-- The answer to a move that is refused. -/
def Move.refusal (length : Nat) : Move → Except CursorError Bool
  | .seek index => .error (.outOfBounds index length)
  | _ => .ok false

/-- A move is made by the cursor and by its zipper, or it is refused by both. -/
theorem move_cases (c : Cursor α) (m : Move) :
    (∃ d, c.move m = (.ok true, d) ∧ d.items = c.items ∧ c.zipper.move? m = some d.zipper) ∨
      (c.move m = (m.refusal c.items.length, c) ∧ c.zipper.move? m = none) := by
  cases m with
  | next =>
    cases h : c.next? with
    | some d => exact .inl ⟨d, move_next_iff.2 h, (next?_eq_some_iff.1 h).1, next?_zipper h⟩
    | none => exact .inr ⟨by simp [move, h, Move.refusal], next?_zipper_of_none h⟩
  | previous =>
    cases h : c.previous? with
    | some d =>
      -- The zipper of `d` steps forward to this one, so that this one steps back to it.
      have hback := Zipper.previous?_of_next? (next?_zipper (next?_eq_some_iff_previous?.2 h))
      exact .inl ⟨d, move_previous_iff.2 h, (previous?_eq_some_iff.1 h).1, hback⟩
    | none => exact .inr ⟨by simp [move, h, Move.refusal], previous?_zipper_of_none h⟩
  | seek index =>
    rw [Zipper.move?, items_zipper]
    rcases Nat.lt_or_ge index c.items.length with h | h
    · exact .inl ⟨_, move_seek_of_lt h, rfl, cut?_position ⟨c.items, index, h⟩⟩
    · exact .inr ⟨move_seek_of_le h, by rw [Zipper.cut?, List.drop_eq_nil_of_le h]⟩

theorem moveAll_follows (c : Cursor α) (moves : List Move) :
    (c.moveAll moves).items = c.items ∧ (c.moveAll moves).zipper = c.zipper.moveAll moves := by
  induction moves generalizing c with
  | nil => exact ⟨rfl, rfl⟩
  | cons m moves ih =>
    obtain ⟨hitems, hzipper⟩ := ih (c.move m).2
    simp only [moveAll, Zipper.moveAll, List.foldl_cons] at hitems hzipper ⊢
    rw [hitems, hzipper]
    rcases move_cases c m with ⟨d, hd, hi, hz⟩ | ⟨hc, hz⟩
    · simp [hd, hi, hz]
    · simp [hc, hz]

/-! ## What a cursor shows -/

/-- All that can be asked of a cursor, answered by the cut list. -/
structure Shows (c : Cursor α) (z : Zipper α) : Prop where
  items : c.items = z.before ++ [z.current] ++ z.after
  current : c.current = z.current
  position : c.position = z.before.length
  /-- The index after the current one is thus never larger than the length. -/
  inside : c.position < c.items.length
  remaining : c.remaining = 1 + z.after.length
  peekPrevious : c.peekPrevious = z.before.getLast?
  peekNext : c.peekNext = z.after.head?
  hasPrevious : c.hasPrevious = z.before.getLast?.isSome
  hasNext : c.hasNext = z.after.head?.isSome
  /-- A span reaches from its start through the current item. -/
  span : ∀ start ≤ c.position, ∃ skipped, skipped.length = start ∧
    c.items = skipped ++ c.spanFrom start ++ z.after
  span_of_lt : ∀ start, c.position < start → c.spanFrom start = []

theorem peekPrevious_eq_getLast? (c : Cursor α) :
    c.peekPrevious = (c.items.take c.position).getLast? := by
  have hc := c.inBounds
  unfold peekPrevious
  rw [List.getLast?_take]
  split
  · rfl
  · rw [List.getElem?_eq_getElem (by omega), Option.some_or]

theorem isSome_peekPrevious (c : Cursor α) : c.peekPrevious.isSome = c.hasPrevious := by
  have hc := c.inBounds
  unfold peekPrevious hasPrevious
  split
  · next h => simp [h]
  · next h =>
    rw [List.getElem?_eq_getElem (by omega)]
    simp [Nat.pos_of_ne_zero h]

theorem isSome_peekNext (c : Cursor α) : c.peekNext.isSome = c.hasNext := by
  rw [Bool.eq_iff_iff]
  simp [peekNext, hasNext]

theorem append_spanFrom {start : Nat} (h : start ≤ c.position) :
    c.items.take start ++ c.spanFrom start ++ c.following = c.items := by
  have hskipped : c.items.take start = (c.items.take (c.position + 1)).take start := by
    rw [List.take_take, Nat.min_eq_left (by omega)]
  rw [hskipped, spanFrom, Cursor.span, List.take_append_drop, following, List.take_append_drop]

theorem shows_zipper (c : Cursor α) : c.Shows c.zipper where
  items := (items_zipper c).symm
  current := rfl
  position := (List.length_take_of_le (Nat.le_of_lt c.inBounds)).symm
  inside := c.inBounds
  remaining := by
    have hc := c.inBounds
    simp only [Cursor.remaining, zipper, following, List.length_drop]
    omega
  peekPrevious := peekPrevious_eq_getLast? c
  peekNext := List.head?_drop.symm
  hasPrevious := by
    rw [← isSome_peekPrevious, peekPrevious_eq_getLast?]
    rfl
  hasNext := by
    rw [← isSome_peekNext, zipper, following, List.head?_drop]
    rfl
  span start h := by
    have hc := c.inBounds
    exact ⟨c.items.take start, List.length_take_of_le (by omega), (append_spanFrom h).symm⟩
  span_of_lt start h := by
    apply List.drop_eq_nil_of_le
    rw [List.length_take]
    omega

/-! ## Main theorem -/

/-- A cursor on the first item makes any number of moves, and a zipper makes the same. The list
stays as it is, and the cursor shows it cut as the zipper cuts it. Every further move is made by
both or changes neither, and a seek is refused exactly if its index lies outside the list. A step to
one side leads from one cursor to another if and only if the step to the other side leads back. -/
theorem moves_as_zipper (item : α) (rest : List α) (moves : List Move) :
    ∃ start c z, first (item :: rest) = .ok start ∧ start.moveAll moves = c ∧
      Zipper.moveAll ⟨[], item, rest⟩ moves = z ∧
      c.items = item :: rest ∧ c.Shows z ∧
      (∀ m, (∃ d z', c.move m = (.ok true, d) ∧ z.move? m = some z' ∧ d.Shows z') ∨
        (c.move m = (m.refusal c.items.length, c) ∧ z.move? m = none)) ∧
      (∀ index, c.move (.seek index) = (.error (.outOfBounds index c.items.length), c) ↔
        c.items.length ≤ index) ∧
      ∀ d, (c.move .next = (.ok true, d) ↔ d.move .previous = (.ok true, c)) ∧
        (c.move .previous = (.ok true, d) ↔ d.move .next = (.ok true, c)) := by
  let start : Cursor α := ⟨item :: rest, 0, Nat.succ_pos _⟩
  obtain ⟨hitems, hzipper⟩ := moveAll_follows start moves
  refine ⟨start, start.moveAll moves, (start.moveAll moves).zipper, rfl, rfl, hzipper.symm, hitems,
    shows_zipper _, ?_, ?_, ?_⟩
  · intro m
    rcases move_cases (start.moveAll moves) m with ⟨d, hd, -, hz⟩ | hrefused
    · exact .inl ⟨d, d.zipper, hd, hz, shows_zipper d⟩
    · exact .inr hrefused
  · intro index
    refine ⟨fun h => ?_, move_seek_of_le⟩
    apply Nat.not_lt.1
    intro hlt
    rw [move_seek_of_lt hlt] at h
    cases h
  · intro d
    exact ⟨move_next_iff_move_previous, move_next_iff_move_previous.symm⟩

/-- A move before the first item, a seek far beyond the last one and a third step forward are
refused. -/
example :
    (moveAll ⟨['a', 'b', 'c'], 0, by decide⟩
      [.previous, .next, .seek (2 ^ 64 - 1), .next, .next]).position = 2 := by
  decide

end Cursor

end Lisplet
