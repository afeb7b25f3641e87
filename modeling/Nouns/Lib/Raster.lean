import Mathlib.Data.List.Basic

/-!
# Raster — pixels of a window, and runs of them

The pixels of a window are numbered line by line.  A run is a number of pixels with the same value,
from one pixel on; the part of it in one line is a segment.
-/

namespace Raster

/-! ## Runs -/

/-- The values of the pixels of runs. -/
def expand {α : Type} (runs : List (Nat × α)) : List α :=
  runs.flatMap fun run => List.replicate run.1 run.2

@[simp] theorem expand_nil {α : Type} : expand ([] : List (Nat × α)) = [] := rfl

@[simp] theorem expand_cons {α : Type} (run : Nat × α) (runs : List (Nat × α)) :
    expand (run :: runs) = List.replicate run.1 run.2 ++ expand runs :=
  List.flatMap_cons

/-! ## Windows -/

/-- The columns from `left` up to `right`, and the lines from `top` down. -/
structure Window where
  left : Nat
  right : Nat
  top : Nat
  nonempty : left < right

namespace Window

variable (w : Window) (k n x y : Nat)

def width : Nat := w.right - w.left

def column : Nat := w.left + k % w.width

def line : Nat := w.top + k / w.width

def Contains : Prop := w.left ≤ x ∧ x < w.right ∧ w.top ≤ y

instance : Decidable (w.Contains x y) := inferInstanceAs (Decidable (_ ∧ _))

/-- The number of a pixel in the window. -/
def number : Nat := (y - w.top) * w.width + (x - w.left)

/-- The pixels of the first `height` lines in their order. -/
def pixels (height : Nat) : List (Nat × Nat) :=
  (List.range' w.top height).flatMap fun y => (List.range' w.left w.width).map fun x => (x, y)

theorem width_pos : 0 < w.width := Nat.sub_pos_of_lt w.nonempty

variable {w k n x y}

theorem column_lt : w.column k < w.right := by
  have hmod := Nat.mod_lt k w.width_pos
  have hlt := w.nonempty
  unfold column
  unfold width at *
  omega

/-- Up to the end of the line. -/
theorem right_sub_column : w.right - w.column k = w.width - k % w.width := by
  unfold column width
  omega

/-- A segment that ends its line. -/
theorem next_line (h : k % w.width + n = w.width) :
    w.column (k + n) = w.left ∧ w.line (k + n) = w.line k + 1 := by
  have hdiv : k + n = w.width * (k / w.width + 1) := by
    have hk := Nat.div_add_mod k w.width
    rw [Nat.mul_add, Nat.mul_one]
    omega
  unfold column line
  rw [hdiv, Nat.mul_mod_right, Nat.mul_div_cancel_left _ w.width_pos]
  omega

/-- A segment that leaves pixels of its line. -/
theorem same_line (h : k % w.width + n < w.width) :
    w.column (k + n) = w.column k + n ∧ w.line (k + n) = w.line k := by
  have hsum : k + n = k % w.width + n + w.width * (k / w.width) := by
    have hk := Nat.div_add_mod k w.width
    omega
  unfold column line
  rw [hsum, Nat.add_mul_mod_self_left, Nat.mod_eq_of_lt h, Nat.add_mul_div_left _ _ w.width_pos,
    Nat.div_eq_of_lt h]
  omega

theorem contains_of_mem_segment (h : k % w.width + n ≤ w.width)
    (hseg : w.line k = y ∧ w.column k ≤ x ∧ x < w.column k + n) : w.Contains x y := by
  obtain ⟨hline, hfrom, hto⟩ := hseg
  have hlt := w.nonempty
  have hwidth : w.width = w.right - w.left := rfl
  unfold column at hfrom hto
  refine ⟨by omega, by omega, ?_⟩
  rw [← hline]
  exact Nat.le_add_right _ _

/-- The pixels of a segment are those with its numbers. -/
theorem mem_segment_iff (hxy : w.Contains x y) (h : k % w.width + n ≤ w.width) :
    (w.line k = y ∧ w.column k ≤ x ∧ x < w.column k + n) ↔
      k ≤ w.number x y ∧ w.number x y < k + n := by
  obtain ⟨hleft, hright, htop⟩ := hxy
  have hk := Nat.div_add_mod k w.width
  have hx : x - w.left < w.width := by
    unfold width
    omega
  unfold line column number
  constructor
  · rintro ⟨hline, hfrom, hto⟩
    have hdiv : y - w.top = k / w.width := by omega
    rw [hdiv, Nat.mul_comm]
    omega
  · rintro ⟨hfrom, hto⟩
    -- Both numbers are in the line that begins at `width * (k / width)`.
    have hdiv : y - w.top = k / w.width := by
      rcases Nat.lt_trichotomy (y - w.top) (k / w.width) with hlt | heq | hgt
      · have hle := Nat.mul_le_mul_right w.width hlt
        rw [Nat.succ_mul, Nat.mul_comm (k / w.width)] at hle
        omega
      · exact heq
      · have hle := Nat.mul_le_mul_right w.width hgt
        rw [Nat.succ_mul, Nat.mul_comm (k / w.width)] at hle
        omega
    rw [hdiv, Nat.mul_comm] at hfrom hto
    omega

theorem pixels_succ (height : Nat) : w.pixels (height + 1) = w.pixels height ++
    (List.range' w.left w.width).map fun x => (x, w.top + height) := by
  simp [pixels, List.range'_1_concat]

theorem length_pixels (height : Nat) : (w.pixels height).length = height * w.width := by
  induction height with
  | zero => simp [pixels]
  | succ height ih => rw [pixels_succ, List.length_append, ih, List.length_map, List.length_range',
      Nat.succ_mul]

/-- The pixel at the place of its number. -/
theorem getElem?_pixels {height : Nat} (hxy : w.Contains x y) (hy : y < w.top + height) :
    (w.pixels height)[w.number x y]? = some (x, y) := by
  obtain ⟨hleft, hright, htop⟩ := hxy
  induction height with
  | zero => omega
  | succ height ih =>
    rw [pixels_succ, List.getElem?_append]
    by_cases hlast : y < w.top + height
    · have hline : (w.pixels height)[w.number x y]? = some (x, y) := ih hlast
      rw [if_pos (List.getElem?_eq_some_iff.mp hline).1]
      exact hline
    · have hx : x - w.left < w.width := by
        unfold width
        omega
      have hnumber : w.number x y = height * w.width + (x - w.left) := by
        unfold number
        congr 2
        omega
      rw [length_pixels, hnumber, if_neg (by omega), Nat.add_sub_cancel_left, List.getElem?_map,
        List.getElem?_range' (by omega)]
      simp only [Option.map_some, Option.some.injEq, Prod.mk.injEq]
      omega

theorem getElem?_pixels_of_le {height : Nat} (hy : w.top + height ≤ y) :
    (w.pixels height)[w.number x y]? = none := by
  have hle : height * w.width ≤ (y - w.top) * w.width := Nat.mul_le_mul_right _ (by omega)
  rw [List.getElem?_eq_none_iff, length_pixels, number]
  omega

end Window

end Raster
