/-!
# Sets of characters given by ranges of code points
-/

namespace Lisplet.Text

/-- Inclusive ranges of code points, in increasing order. -/
abbrev Ranges := List (Nat × Nat)

/-- Whether some range holds the code point of `c`. -/
def Ranges.covers (ranges : Ranges) (c : Char) : Bool :=
  ranges.any fun (first, last) => first ≤ c.toNat && c.toNat ≤ last

theorem Ranges.covers_iff (ranges : Ranges) (c : Char) :
    ranges.covers c = true ↔ ∃ r ∈ ranges, r.1 ≤ c.toNat ∧ c.toNat ≤ r.2 := by
  simp [covers]

/-- No code point lies in a range of both lists. -/
def Ranges.disjoint (xs ys : Ranges) : Bool :=
  xs.all fun (first, last) => ys.all fun (first', last') => last < first' || last' < first

theorem Ranges.not_covers_of_disjoint {xs ys : Ranges} (h : xs.disjoint ys = true) {c : Char}
    (hc : xs.covers c = true) : ys.covers c = false := by
  obtain ⟨r, hr, h1, h2⟩ := (covers_iff xs c).1 hc
  rw [← Bool.not_eq_true, covers_iff]
  rintro ⟨s, hs, h3, h4⟩
  simp only [disjoint, List.all_eq_true] at h
  have := h r hr s hs
  simp only [Bool.or_eq_true, decide_eq_true_eq] at this
  omega

end Lisplet.Text
