import Mathlib.Algebra.Group.Nat.Defs
import PipeQuery.Span

/-!
# `PipeQuery.Proofs.Span`: spans further on, and spans of 32 bits

Two functions on spans are put into whole trees and token lists by the modules behind this one:
`Span.shift`, which moves a span to another place of a longer text, and `Span.truncated`, which is
what is left of a span in 32 bits. The first commutes with smallest covers. The second is no change
at all in texts of fewer than 2 ^ 32 bytes (`truncated_eq_self`).
-/

set_option autoImplicit false

namespace PipeQuery.Span

/-! ### Further on -/

section

variable (k : Nat)

/-- The span `k` bytes further on. -/
def shift (s : Span) : Span :=
  ⟨s.start + k, s.stop + k⟩

/-- To move by nothing is to change nothing. -/
theorem shift_zero : shift 0 = id := rfl

/-- The start is moved as well. -/
@[simp]
theorem shift_start (s : Span) : (s.shift k).start = s.start + k := rfl

/-- The end is moved as well. -/
@[simp]
theorem shift_stop (s : Span) : (s.shift k).stop = s.stop + k := rfl

/-- The smallest cover of two spans moves with them. -/
theorem shift_merge (a b : Span) : (a.merge b).shift k = (a.shift k).merge (b.shift k) := by
  simp only [merge, shift, Span.mk.injEq]
  omega

/-- An empty span stays empty. -/
theorem shift_point (offset : Nat) : (point offset).shift k = point (offset + k) := rfl

end

/-! ### 32 bits -/

variable {s : Span}

/-- The start is what is left of it in 32 bits. -/
@[simp]
theorem truncated_start (s : Span) : s.truncated.start = s.start % 2 ^ 32 := by
  simp [truncated]

/-- The end is what is left of it in 32 bits. -/
@[simp]
theorem truncated_stop (s : Span) : s.truncated.stop = s.stop % 2 ^ 32 := by
  simp [truncated]

/-- Nothing is cut off from offsets below 2 ^ 32. -/
theorem truncated_eq_self (hstart : s.start < 2 ^ 32) (hstop : s.stop < 2 ^ 32) :
    s.truncated = s :=
  calc
    s.truncated = ⟨s.start % 2 ^ 32, s.stop % 2 ^ 32⟩ := by
      rw [← truncated_start, ← truncated_stop]
    _ = ⟨s.start, s.stop⟩ := by rw [Nat.mod_eq_of_lt hstart, Nat.mod_eq_of_lt hstop]

end PipeQuery.Span
