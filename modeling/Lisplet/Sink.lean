/-!
# Where output goes

A sink collects bytes. It may be limited to a number of bytes, and it may fail whenever it is
flushed.
-/

namespace Lisplet

structure Sink where
  /-- How many more bytes the sink takes; `none` if any number. -/
  room : Option Nat
  flushFails : Bool
  /-- What has been written, in order. -/
  written : List UInt8

namespace Sink

inductive Fault where
  | full
  | flush
deriving DecidableEq

def Fault.message : Fault → String
  | full => "sink full"
  | flush => "flush failed"

/-- A sink that never fails. -/
def unlimited : Sink := ⟨none, false, []⟩

/-- Writes all the bytes, or those that still fit. -/
def write (s : Sink) (bytes : List UInt8) : Except Fault Unit × Sink :=
  match s.room with
  | none => (.ok (), { s with written := s.written ++ bytes })
  | some room =>
    if bytes.length ≤ room then
      (.ok (), { s with room := some (room - bytes.length), written := s.written ++ bytes })
    else
      (.error .full, { s with room := some 0, written := s.written ++ bytes.take room })

theorem write_of_unlimited {s : Sink} (h : s.room = none) (bytes : List UInt8) :
    s.write bytes = (.ok (), { s with written := s.written ++ bytes }) := by
  unfold write
  rw [h]

theorem write_of_fits {s : Sink} {room : Nat} {bytes : List UInt8} (h : s.room = some room)
    (hb : bytes.length ≤ room) :
    s.write bytes =
      (.ok (), { s with room := some (room - bytes.length), written := s.written ++ bytes }) := by
  unfold write
  rw [h]
  exact if_pos hb

theorem write_of_full {s : Sink} {room : Nat} {bytes : List UInt8} (h : s.room = some room)
    (hb : room < bytes.length) :
    s.write bytes =
      (.error .full, { s with room := some 0, written := s.written ++ bytes.take room }) := by
  unfold write
  rw [h]
  exact if_neg (Nat.not_le.2 hb)

theorem write_nil (s : Sink) : s.write [] = (.ok (), s) := by
  obtain ⟨room, flushFails, written⟩ := s
  cases room <;> simp [write]

theorem flushFails_write (s : Sink) (bytes : List UInt8) :
    (s.write bytes).2.flushFails = s.flushFails := by
  unfold write
  split
  · rfl
  · split <;> rfl

/-- Bytes may be written at once or in two parts. -/
theorem write_append (s : Sink) (a b : List UInt8) :
    s.write (a ++ b) = match s.write a with
      | (.ok (), after) => after.write b
      | (.error fault, after) => (.error fault, after) := by
  cases hr : s.room with
  | none =>
    rw [write_of_unlimited hr, write_of_unlimited hr]
    simp [write, hr]
  | some room =>
    by_cases ha : a.length ≤ room
    · rw [write_of_fits hr ha]
      by_cases hb : b.length ≤ room - a.length
      · rw [write_of_fits hr (by simp; omega)]
        simp [write, hb, Nat.sub_sub]
      · rw [write_of_full hr (by simp; omega)]
        simp [write, hb, List.take_append, List.take_of_length_le ha]
    · have hroom : room < (a ++ b).length := by
        rw [List.length_append]
        omega
      rw [write_of_full hr hroom, write_of_full hr (Nat.not_le.1 ha),
        List.take_append_of_le_length (by omega)]

def flush (s : Sink) : Except Fault Unit := if s.flushFails then .error .flush else .ok ()

/-- Takes whatever is written and can be flushed. -/
def NeverFails (s : Sink) : Prop := (∀ bytes, (s.write bytes).1 = .ok ()) ∧ s.flush = .ok ()

theorem neverFails_iff {s : Sink} : s.NeverFails ↔ s.room = none ∧ s.flushFails = false := by
  have hflush : s.flush = .ok () ↔ s.flushFails = false := by simp [flush]
  rw [NeverFails, hflush]
  refine and_congr_left fun _ => ⟨fun h => ?_, fun h bytes => by rw [write_of_unlimited h]⟩
  cases hr : s.room with
  | none => rfl
  | some room =>
    -- One byte more than there is room for is too much.
    have hfull := h (List.replicate (room + 1) 0)
    rw [write_of_full hr (by simp)] at hfull
    cases hfull

theorem neverFails_unlimited : unlimited.NeverFails := neverFails_iff.2 ⟨rfl, rfl⟩

theorem NeverFails.extend {s : Sink} (h : s.NeverFails) (bytes : List UInt8) :
    NeverFails { s with written := s.written ++ bytes } := by
  rw [neverFails_iff] at h ⊢
  exact h

end Sink

end Lisplet
