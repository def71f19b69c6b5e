import Mathlib.Data.List.Sort
import Mathlib.Logic.Function.Iterate
import Mathlib.Data.Nat.Log

/-! # Tree topology of the MPI tree client

`MpiTreeClient` places the ranks `0, …, count - 1` of the communicator in an implicit binary
tree: the children of `rank` are `rank * 2 + 1` and `rank * 2 + 2` when they exist, and every
rank other than the root `0` has parent `(rank - 1) / 2`. The root is its own parent.
Ranks are natural numbers: MPI never hands out a negative rank.
-/

namespace IntelCaffe.Internode

/-- `MpiTreeClient::children`. -/
def children (count parent : Nat) : List Nat :=
  if count < 2 then [] else
    let children := if parent * 2 + 1 < count then [parent * 2 + 1] else []
    if parent * 2 + 2 < count then children ++ [parent * 2 + 2] else children

/-- `MpiTreeClient::parent`. -/
def parent (current : Nat) : Nat :=
  if current = 0 then 0 else (current - 1) / 2

example : children 5 0 = [1, 2] ∧ children 5 1 = [3, 4] ∧ children 5 2 = [] := by decide

theorem mem_children {count rank child : Nat} :
    child ∈ children count rank ↔
      (child = rank * 2 + 1 ∨ child = rank * 2 + 2) ∧ child < count := by
  unfold children
  split_ifs <;> simp <;> omega

theorem parent_of_mem_children {count rank child : Nat}
    (member : child ∈ children count rank) : parent child = rank := by
  rw [mem_children] at member
  unfold parent
  split_ifs <;> omega

theorem pos_of_mem_children {count rank child : Nat}
    (member : child ∈ children count rank) : 0 < child ∧ child < count := by
  rw [mem_children] at member
  omega

theorem children_length_le (count rank : Nat) : (children count rank).length ≤ 2 := by
  unfold children
  split_ifs <;> simp

theorem children_sorted (count rank : Nat) : (children count rank).Sorted (· < ·) := by
  unfold children
  split_ifs <;> simp

theorem parent_lt {rank : Nat} (positive : 0 < rank) : parent rank < rank := by
  unfold parent
  split_ifs <;> omega

theorem parent_le (rank : Nat) : parent rank ≤ rank - 1 := by
  unfold parent
  split_ifs <;> omega

theorem mem_children_parent {count rank : Nat} (positive : 0 < rank) (below : rank < count) :
    rank ∈ children count (parent rank) := by
  rw [mem_children]
  unfold parent
  split_ifs <;> omega

theorem parent_iterate_self (rank : Nat) : parent^[rank] rank = 0 := by
  have descends : ∀ steps, parent^[steps] rank ≤ rank - steps := by
    intro steps
    induction steps with
    | zero => simp
    | succ steps induction =>
        rw [Function.iterate_succ_apply']
        have := parent_le (parent^[steps] rank)
        omega
  have := descends rank
  omega

/-! ## Descents from the root -/

inductive Descent (count : Nat) : List Nat → Nat → Prop
  | root : Descent count [] 0
  | child {path : List Nat} {rank child : Nat} :
      Descent count path rank → child ∈ children count rank →
      Descent count (path ++ [child]) child

def ancestry (rank : Nat) : List Nat :=
  if positive : 0 < rank then ancestry (parent rank) ++ [rank] else []
termination_by rank
decreasing_by exact parent_lt positive

theorem Descent.lt_count {count : Nat} (nonempty : 0 < count) {path : List Nat} {rank : Nat}
    (descent : Descent count path rank) : rank < count := by
  cases descent with
  | root => exact nonempty
  | child _ member => exact (pos_of_mem_children member).2

theorem Descent.eq_ancestry {count : Nat} {path : List Nat} {rank : Nat}
    (descent : Descent count path rank) : path = ancestry rank := by
  induction descent with
  | root => simp [ancestry]
  | @child path rank child _ member induction =>
      rw [ancestry, dif_pos (pos_of_mem_children member).1, parent_of_mem_children member,
        induction]

theorem descent_ancestry {count rank : Nat} (below : rank < count) :
    Descent count (ancestry rank) rank := by
  induction rank using Nat.strong_induction_on with
  | _ rank induction =>
      by_cases positive : 0 < rank
      · rw [ancestry, dif_pos positive]
        exact .child (induction _ (parent_lt positive) ((parent_lt positive).trans below))
          (mem_children_parent positive below)
      · rw [Nat.eq_zero_of_not_pos positive]
        simpa [ancestry] using Descent.root

/-! ## Depth

`parent` halves `rank + 1`, so the tree is as shallow as a binary tree can be: a message that
`async_send_to_children` relays down from the root reaches `rank` after `⌊log₂ (rank + 1)⌋`
hops, and no rank of the communicator is more than `⌊log₂ count⌋` hops away. -/

theorem parent_add_one {rank : Nat} (positive : 0 < rank) : parent rank + 1 = (rank + 1) / 2 := by
  unfold parent
  split_ifs <;> omega

theorem ancestry_length (rank : Nat) : (ancestry rank).length = Nat.log 2 (rank + 1) := by
  induction rank using Nat.strong_induction_on with
  | _ rank induction =>
      rw [ancestry]
      split_ifs with positive
      · have deep : 0 < Nat.log 2 (rank + 1) := Nat.log_pos (by decide) (by omega)
        rw [List.length_append, induction _ (parent_lt positive), parent_add_one positive,
          Nat.log_div_base, List.length_singleton]
        omega
      · simp [Nat.eq_zero_of_not_pos positive]

theorem descent_length_log {count : Nat} {path : List Nat} {rank : Nat}
    (descent : Descent count path rank) :
    path.length = Nat.log 2 (rank + 1) ∧ path.length ≤ Nat.log 2 count := by
  rw [descent.eq_ancestry, ancestry_length]
  refine ⟨rfl, ?_⟩
  cases descent with
  | root => simp
  | child _ member => exact Nat.log_mono_right (pos_of_mem_children member).2

theorem descent_length_log_four :
    ([1, 4] : List Nat).length = Nat.log 2 (4 + 1) ∧ ([1, 4] : List Nat).length ≤ Nat.log 2 5 :=
  descent_length_log (Descent.child (Descent.child Descent.root (by decide : 1 ∈ children 5 0))
    (by decide : 4 ∈ children 5 1))

/-! ## The tree -/

structure IsRankTree (count : Nat) : Prop where
  children_length : ∀ rank < count, (children count rank).length ≤ 2
  children_sorted : ∀ rank < count, (children count rank).Sorted (· < ·)
  children_range : ∀ rank < count, ∀ child ∈ children count rank, 1 ≤ child ∧ child < count
  parent_child : ∀ rank < count, ∀ child ∈ children count rank, parent child = rank
  parent_lt : ∀ rank, 1 ≤ rank → rank < count → parent rank < rank
  mem_children_parent : ∀ rank, 1 ≤ rank → rank < count → rank ∈ children count (parent rank)
  unique_descent : ∀ rank, (∃! path, Descent count path rank) ↔ rank < count
  reaches_root : ∀ rank < count, ∃ steps, parent^[steps] rank = 0

theorem tree_topology (count : Nat) (nonempty : 1 ≤ count) : IsRankTree count where
  children_length rank _ := children_length_le count rank
  children_sorted rank _ := children_sorted count rank
  children_range _ _ _ member := pos_of_mem_children member
  parent_child _ _ _ member := parent_of_mem_children member
  parent_lt _ positive _ := parent_lt positive
  mem_children_parent _ positive below := mem_children_parent positive below
  unique_descent rank := by
    constructor
    · rintro ⟨path, descent, _⟩
      exact descent.lt_count nonempty
    · intro below
      exact ⟨ancestry rank, descent_ancestry below, fun _ descent => descent.eq_ancestry⟩
  reaches_root rank _ := ⟨rank, parent_iterate_self rank⟩

theorem tree_topology_five : IsRankTree 5 := tree_topology 5 (by decide)

end IntelCaffe.Internode
