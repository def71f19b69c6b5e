import Mathlib.Algebra.BigOperators.Intervals
import Mathlib.Algebra.Order.BigOperators.GroupWithZero.List
import Mathlib.Data.List.GetD
import Mathlib.Data.Set.Function

/-! # The user layout of `MKLReLULayer`

`LayerSetUp` describes the bottom's shape to MKL as `dim` sizes and strides, listing the axes
from the last, which varies fastest, to the first. The layout maps an index of the blob to the
sum of its coordinates times the strides. This module computes the loop that fills the two
arrays and shows that the layout is the row-major order of the blob: the offset it gives an
index is the offset `Blob::offset` gives it, and it numbers the index box one to one by
`[0, count)`.
-/

namespace IntelCaffe

/-- The `sizes` and `strides` arrays of `LayerSetUp`. -/
structure UserLayout where
  sizes : List Nat
  strides : List Nat
  deriving DecidableEq, Repr

namespace MKLReLULayer

/-- Turn `d` of the loop of `LayerSetUp`. -/
def layoutStep (shape : List Nat) (layout : UserLayout) (d : Nat) : UserLayout :=
  let sizes := layout.sizes ++ [shape.getD (shape.length - 1 - d) 0]
  ⟨sizes, layout.strides ++
    [if d = 0 then 1 else layout.strides.getD (d - 1) 0 * sizes.getD (d - 1) 0]⟩

/-- The arrays the loop of `LayerSetUp` hands to `create_user_layout`. -/
def userLayout (shape : List Nat) : UserLayout :=
  (List.range shape.length).foldl (layoutStep shape) ⟨[], []⟩

def filled (shape : List Nat) (d : Nat) : UserLayout :=
  ⟨shape.reverse.take d, (List.range d).map fun e => (shape.reverse.take e).prod⟩

theorem layoutStep_filled {shape : List Nat} {d : Nat} (turn : d < shape.length) :
    layoutStep shape (filled shape d) d = filled shape (d + 1) := by
  have reversed : shape.reverse[d]? = some (shape.getD (shape.length - 1 - d) 0) := by
    rw [List.getElem?_reverse turn, List.getD_eq_getElem?_getD, List.getElem?_eq_getElem (by omega)]
    rfl
  simp only [layoutStep, filled, UserLayout.mk.injEq, List.take_succ, reversed, Option.toList_some,
    List.range_succ, List.map_append, List.map_singleton, true_and]
  congr 2
  split_ifs with first
  · simp [first]
  · obtain ⟨e, rfl⟩ : ∃ e, d = e + 1 := ⟨d - 1, by omega⟩
    have bound : e < shape.reverse.length := by simp only [List.length_reverse]; omega
    rw [List.prod_take_succ _ e bound]
    have inSizes :
        (shape.reverse.take (e + 1) ++ [shape.getD (shape.length - 1 - (e + 1)) 0]).getD e 0 =
          shape.reverse[e] := by
      rw [List.getD_append _ _ _ _ (by simp only [List.length_take]; omega),
        List.getD_eq_getElem _ _ (by simp only [List.length_take]; omega), List.getElem_take]
    rw [Nat.add_sub_cancel, inSizes]
    simp [List.getD_eq_getElem?_getD]

theorem layoutLoop_filled (shape : List Nat) {d : Nat} (turns : d ≤ shape.length) :
    (List.range d).foldl (layoutStep shape) ⟨[], []⟩ = filled shape d := by
  induction d with
  | zero => rfl
  | succ d induction =>
    rw [List.range_succ, List.foldl_append, induction (by omega), List.foldl_cons, List.foldl_nil,
      layoutStep_filled (by omega)]

theorem userLayout_eq (shape : List Nat) :
    userLayout shape = ⟨shape.reverse,
      (List.range shape.length).map fun d => (shape.reverse.take d).prod⟩ := by
  rw [userLayout, layoutLoop_filled shape le_rfl, filled]
  simp

example : userLayout [2, 3, 4] = ⟨[4, 3, 2], [1, 4, 12]⟩ := by decide

theorem userLayout_le_count {shape : List Nat} (positive : ∀ size ∈ shape, 0 < size) :
    ∀ value ∈ (userLayout shape).sizes ++ (userLayout shape).strides, value ≤ shape.prod := by
  have count : 0 < shape.prod := List.prod_pos positive
  rw [userLayout_eq]
  intro value member
  simp only [List.mem_append, List.mem_reverse, List.mem_map, List.mem_range] at member
  rcases member with size | ⟨d, -, rfl⟩
  · exact Nat.le_of_dvd count (List.dvd_prod size)
  · refine Nat.le_of_dvd count ⟨(shape.reverse.drop d).prod, ?_⟩
    rw [List.prod_take_mul_prod_drop, List.prod_reverse]

/-! ## The loop in `size_t`

`sizes` and `strides` are `size_t` arrays: the loop stores each size and each product modulo
`2 ^ width`. When the count of the blob fits, no value wraps and the loop computes exactly
`userLayout`. -/

def layoutStepSizeT (width : Nat) (shape : List Nat) (layout : UserLayout) (d : Nat) :
    UserLayout :=
  let sizes := layout.sizes ++ [shape.getD (shape.length - 1 - d) 0 % 2 ^ width]
  ⟨sizes, layout.strides ++
    [if d = 0 then 1 else (layout.strides.getD (d - 1) 0 * sizes.getD (d - 1) 0) % 2 ^ width]⟩

def userLayoutSizeT (width : Nat) (shape : List Nat) : UserLayout :=
  (List.range shape.length).foldl (layoutStepSizeT width shape) ⟨[], []⟩

theorem layoutStepSizeT_eq {width : Nat} {shape : List Nat} {layout : UserLayout} {d : Nat}
    (fits : ∀ value ∈ (layoutStep shape layout d).sizes ++ (layoutStep shape layout d).strides,
      value < 2 ^ width) :
    layoutStepSizeT width shape layout d = layoutStep shape layout d := by
  simp only [layoutStep, List.mem_append, List.mem_singleton] at fits
  have size := fits _ (Or.inl (Or.inr rfl))
  have stride := fits _ (Or.inr (Or.inr rfl))
  simp only [layoutStepSizeT, layoutStep, Nat.mod_eq_of_lt size]
  split_ifs with first
  · rfl
  · rw [if_neg first] at stride
    rw [Nat.mod_eq_of_lt stride]

theorem filled_subset {shape : List Nat} {d : Nat} (turns : d ≤ shape.length) :
    (filled shape d).sizes ++ (filled shape d).strides ⊆
      (userLayout shape).sizes ++ (userLayout shape).strides := by
  rw [userLayout_eq]
  exact List.append_subset.mpr ⟨(List.take_subset _ _).trans (List.subset_append_left _ _),
    (List.map_subset _ (List.range_subset.mpr turns)).trans (List.subset_append_right _ _)⟩

theorem user_layout_size_t_exact {width : Nat} {shape : List Nat}
    (positive : ∀ size ∈ shape, 0 < size) (fits : shape.prod < 2 ^ width) :
    userLayoutSizeT width shape = userLayout shape := by
  have loop : ∀ d ≤ shape.length,
      (List.range d).foldl (layoutStepSizeT width shape) ⟨[], []⟩ = filled shape d := by
    intro d turns
    induction d with
    | zero => rfl
    | succ d induction =>
      rw [List.range_succ, List.foldl_append, induction (by omega), List.foldl_cons,
        List.foldl_nil, layoutStepSizeT_eq, layoutStep_filled (by omega)]
      rw [layoutStep_filled (by omega)]
      exact fun value member =>
        (userLayout_le_count positive value (filled_subset turns member)).trans_lt fits
  rw [userLayoutSizeT, loop _ le_rfl, userLayout, layoutLoop_filled shape le_rfl]

theorem user_layout_size_t_exact_three_axes :
    userLayoutSizeT 8 [2, 3, 4] = userLayout [2, 3, 4] :=
  user_layout_size_t_exact (by decide) (by decide)

example : userLayoutSizeT 4 [2, 3, 4] = ⟨[4, 3, 2], [1, 4, 12]⟩ ∧
    userLayoutSizeT 3 [2, 3, 4] = ⟨[4, 3, 2], [1, 4, 4]⟩ := by
  decide

end MKLReLULayer

def UserLayout.offset (layout : UserLayout) (index : List Nat) : Nat :=
  ∑ d in Finset.range index.length, index.getD (index.length - 1 - d) 0 * layout.strides.getD d 0

/-- `Blob::offset` of `index`. -/
def rowMajorOffset (shape index : List Nat) : Nat :=
  (shape.zip index).foldl (fun offset axis => offset * axis.1 + axis.2) 0

def rowMajorIndex : List Nat → Nat → List Nat
  | [], _ => []
  | _ :: shape, offset => offset / shape.prod :: rowMajorIndex shape (offset % shape.prod)


theorem foldl_offset (axes : List (Nat × Nat)) (start : Nat) :
    axes.foldl (fun offset axis => offset * axis.1 + axis.2) start =
      start * (axes.map Prod.fst).prod +
        axes.foldl (fun offset axis => offset * axis.1 + axis.2) 0 := by
  induction axes generalizing start with
  | nil => simp
  | cons axis axes induction =>
    simp only [List.foldl_cons, List.map_cons, List.prod_cons, Nat.zero_mul, Nat.zero_add]
    rw [induction, induction axis.2, Nat.add_mul, Nat.mul_assoc, Nat.add_assoc]

theorem rowMajorOffset_cons {shape index : List Nat} (size i : Nat)
    (sameLength : shape.length = index.length) :
    rowMajorOffset (size :: shape) (i :: index) = i * shape.prod + rowMajorOffset shape index := by
  rw [rowMajorOffset, List.zip_cons_cons, List.foldl_cons, Nat.zero_mul, Nat.zero_add,
    foldl_offset, List.map_fst_zip _ _ sameLength.le, rowMajorOffset]

theorem rowMajorOffset_lt {shape index : List Nat} (inside : List.Forall₂ (· < ·) index shape) :
    rowMajorOffset shape index < shape.prod := by
  induction inside with
  | nil => exact Nat.zero_lt_one
  | @cons i size index shape below rest induction =>
    rw [rowMajorOffset_cons size i rest.length_eq.symm, List.prod_cons]
    have := Nat.mul_le_mul_right shape.prod (show i + 1 ≤ size from below)
    rw [Nat.add_mul, Nat.one_mul] at this
    omega

theorem rowMajorIndex_rowMajorOffset {shape index : List Nat}
    (inside : List.Forall₂ (· < ·) index shape) :
    rowMajorIndex shape (rowMajorOffset shape index) = index := by
  induction inside with
  | nil => rfl
  | @cons i size index shape below rest induction =>
    have bound := rowMajorOffset_lt rest
    rw [rowMajorOffset_cons size i rest.length_eq.symm, rowMajorIndex, Nat.mul_comm i,
      Nat.mul_add_div (by omega), Nat.div_eq_of_lt bound, Nat.add_zero, Nat.mul_add_mod,
      Nat.mod_eq_of_lt bound, induction]

theorem prod_pos_of_lt_cons {size offset : Nat} {shape : List Nat}
    (below : offset < (size :: shape).prod) : 0 < shape.prod :=
  Nat.pos_of_ne_zero fun zero => by simp [zero] at below

theorem rowMajorIndex_inside {shape : List Nat} {offset : Nat} (below : offset < shape.prod) :
    List.Forall₂ (· < ·) (rowMajorIndex shape offset) shape := by
  induction shape generalizing offset with
  | nil => exact .nil
  | cons size shape induction =>
    have positive := prod_pos_of_lt_cons below
    exact .cons ((Nat.div_lt_iff_lt_mul positive).mpr below) (induction (Nat.mod_lt _ positive))

theorem rowMajorOffset_rowMajorIndex {shape : List Nat} {offset : Nat}
    (below : offset < shape.prod) : rowMajorOffset shape (rowMajorIndex shape offset) = offset := by
  induction shape generalizing offset with
  | nil =>
    rw [List.prod_nil, Nat.lt_one_iff] at below
    exact below.symm
  | cons size shape induction =>
    have positive := prod_pos_of_lt_cons below
    rw [rowMajorIndex, rowMajorOffset_cons size _
      (rowMajorIndex_inside (Nat.mod_lt offset positive)).length_eq.symm,
      induction (Nat.mod_lt _ positive), Nat.div_add_mod']

theorem rowMajorOffset_bijOn (shape : List Nat) :
    Set.BijOn (rowMajorOffset shape) {index | List.Forall₂ (· < ·) index shape}
      (Set.Iio shape.prod) :=
  ⟨fun _ inside => rowMajorOffset_lt inside,
    fun index inside index' inside' same => by
      rw [← rowMajorIndex_rowMajorOffset inside, same, rowMajorIndex_rowMajorOffset inside'],
    fun offset below => ⟨rowMajorIndex shape offset, rowMajorIndex_inside below,
      rowMajorOffset_rowMajorIndex below⟩⟩


theorem sum_mul_drop_prod {shape index : List Nat} (sameLength : index.length = shape.length) :
    ∑ j in Finset.range index.length, index.getD j 0 * (shape.drop (j + 1)).prod =
      rowMajorOffset shape index := by
  induction shape generalizing index with
  | nil => rw [List.length_eq_zero.mp sameLength]; rfl
  | cons size shape induction =>
    obtain ⟨i, index, rfl⟩ := List.exists_cons_of_length_eq_add_one sameLength
    rw [List.length_cons, Finset.sum_range_succ', rowMajorOffset_cons size i
      (Nat.succ.inj sameLength).symm, ← induction (Nat.succ.inj sameLength), Nat.add_comm]
    rfl

theorem userLayout_stride {shape : List Nat} {j : Nat} (axis : j < shape.length) :
    (MKLReLULayer.userLayout shape).strides.getD (shape.length - 1 - j) 0 =
      (shape.drop (j + 1)).prod := by
  rw [MKLReLULayer.userLayout_eq, List.getD_eq_getElem?_getD, List.getElem?_map,
    List.getElem?_range (by omega), Option.map_some', Option.getD_some, List.take_reverse,
    List.prod_reverse, show shape.length - (shape.length - 1 - j) = j + 1 by omega]

theorem userLayout_offset {shape index : List Nat} (sameLength : index.length = shape.length) :
    (MKLReLULayer.userLayout shape).offset index = rowMajorOffset shape index :=
  calc (MKLReLULayer.userLayout shape).offset index
    _ = ∑ j in Finset.range index.length, index.getD (index.length - 1 - (index.length - 1 - j)) 0 *
          (MKLReLULayer.userLayout shape).strides.getD (index.length - 1 - j) 0 :=
      (Finset.sum_range_reflect _ _).symm
    _ = ∑ j in Finset.range index.length, index.getD j 0 * (shape.drop (j + 1)).prod :=
      Finset.sum_congr rfl fun j member => by
        rw [Finset.mem_range] at member
        rw [show index.length - 1 - (index.length - 1 - j) = j by omega, sameLength,
          userLayout_stride (sameLength ▸ member)]
    _ = rowMajorOffset shape index := sum_mul_drop_prod sameLength

namespace MKLReLULayer

theorem user_layout_row_major (shape : List Nat) :
    (userLayout shape).sizes = shape.reverse ∧
      (userLayout shape).strides =
        (List.range shape.length).map (fun d => ((userLayout shape).sizes.take d).prod) ∧
      (∀ index, List.Forall₂ (· < ·) index shape →
        (userLayout shape).offset index = rowMajorOffset shape index) ∧
      Set.BijOn (userLayout shape).offset {index | List.Forall₂ (· < ·) index shape}
        (Set.Iio shape.prod) := by
  have sizes : (userLayout shape).sizes = shape.reverse := by rw [userLayout_eq]
  refine ⟨sizes, by rw [sizes, userLayout_eq], fun index inside =>
    userLayout_offset inside.length_eq, ?_⟩
  exact (rowMajorOffset_bijOn shape).congr fun index inside =>
    (userLayout_offset inside.length_eq).symm

end MKLReLULayer

end IntelCaffe
