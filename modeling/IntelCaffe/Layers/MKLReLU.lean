import Mathlib.Logic.Basic

/-! # `MKLReLULayer`

`LayerSetUp` gives the descriptors of the layer their user layout and leaves `reluFwd_` and
`reluBwd_` NULL. The first `Forward_cpu` creates both primitives for the layout of the bottom
it is given: the internal layout of its MKL2017 private data, or the user layout when it has
only cpu data. No later call looks at the primitives or the bottom's layout again. Layouts are
values of a type with decidable equality, standing for what `dnnLayoutCompare` compares; a
primitive made for a layout has every resource in that layout.
-/

namespace IntelCaffe

/-- `PrvMemDescr::get_descr_type()`. -/
inductive PrvDescrType
  | mkl2017
  | mkldnn
  deriving DecidableEq, Repr

inductive BottomData (Layout : Type)
  | prv (descrType : PrvDescrType) (layout : Layout)
  | cpu
  deriving DecidableEq, Repr

namespace BottomData

variable {Layout : Type}

def layout (layoutUsr : Layout) : BottomData Layout → Layout
  | .prv _ layout => layout
  | .cpu => layoutUsr

/-- The `CHECK_EQ` of the first `Forward_cpu` on private data. -/
def passesCheck : BottomData Layout → Bool
  | .prv descrType _ => descrType == .mkl2017
  | .cpu => true

end BottomData

/-- A primitive of `dnnReLUCreateForward`. -/
structure ReLUForward (Layout : Type) where
  dataLayout : Layout
  deriving DecidableEq, Repr

/-- A primitive of `dnnReLUCreateBackward`. -/
structure ReLUBackward (Layout : Type) where
  diffLayout : Layout
  dataLayout : Layout
  deriving DecidableEq, Repr

/-- A `dnnExecute` call. -/
inductive Execution (Layout : Type)
  | forward (primitive : ReLUForward Layout) (src dst : Layout)
  | backward (primitive : ReLUBackward Layout) (src diffDst diffSrc : Layout)
  deriving DecidableEq, Repr

/-- The members of `MKLReLULayer` the two passes read. -/
structure MKLReLULayer (Layout : Type) where
  layoutUsr : Layout
  fwdTopData : Option Layout
  bwdTopDiff : Option Layout
  bwdBottomDiff : Option Layout
  reluFwd : Option (ReLUForward Layout)
  reluBwd : Option (ReLUBackward Layout)
  deriving DecidableEq, Repr

inductive ReLUCall (Layout : Type)
  | forward (bottom : BottomData Layout)
  | backward (propagateDown : Bool) (bottom : BottomData Layout)
  deriving DecidableEq, Repr

namespace MKLReLULayer

variable {Layout : Type} [DecidableEq Layout]

/-- `MKLReLULayer::LayerSetUp`. -/
def layerSetUp (layoutUsr : Layout) : MKLReLULayer Layout :=
  ⟨layoutUsr, none, none, none, none, none⟩

/-- `MKLData::conversion_needed()`. -/
def conversionNeeded (layer : MKLReLULayer Layout) : Option Layout → Bool
  | some layoutInt => layoutInt != layer.layoutUsr
  | none => false

def resourceLayout (layer : MKLReLULayer Layout) : Option Layout → Layout
  | some layoutInt => if layer.conversionNeeded (some layoutInt) then layoutInt else layer.layoutUsr
  | none => layer.layoutUsr

/-- The first `Forward_cpu` on private data. -/
def createPrivate (layer : MKLReLULayer Layout) (layout : Layout) : MKLReLULayer Layout :=
  { layer with
    fwdTopData := some layout
    bwdTopDiff := some layout
    bwdBottomDiff := some layout
    reluFwd := some ⟨layout⟩
    reluBwd := some ⟨layout, layout⟩ }

/-- The first `Forward_cpu` on cpu data. -/
def createUser (layer : MKLReLULayer Layout) : MKLReLULayer Layout :=
  { layer with
    reluFwd := some ⟨layer.layoutUsr⟩
    reluBwd := some ⟨layer.layoutUsr, layer.layoutUsr⟩ }

/-- `MKLReLULayer::Forward_cpu`; `none` when a `CHECK` fails. -/
def forwardCpu (layer : MKLReLULayer Layout) (bottom : BottomData Layout) :
    Option (MKLReLULayer Layout × Execution Layout) := do
  let layer ← match bottom, layer.reluFwd with
    | .prv descrType layout, none =>
      if descrType = .mkl2017 then some (layer.createPrivate layout) else none
    | .cpu, none => some layer.createUser
    | _, some _ => some layer
  let reluFwd ← layer.reluFwd
  pure (layer, .forward reluFwd (bottom.layout layer.layoutUsr)
    (layer.resourceLayout layer.fwdTopData))

/-- `MKLReLULayer::Backward_cpu`; `none` when `dnnExecute` fails. -/
def backwardCpu (layer : MKLReLULayer Layout) (propagateDown : Bool) (bottom : BottomData Layout) :
    Option (Option (Execution Layout)) :=
  if propagateDown then do
    let reluBwd ← layer.reluBwd
    pure (some (.backward reluBwd (bottom.layout layer.layoutUsr)
      (layer.resourceLayout layer.bwdTopDiff) (layer.resourceLayout layer.bwdBottomDiff)))
  else some none

def step (layer : MKLReLULayer Layout) :
    ReLUCall Layout → Option (MKLReLULayer Layout × Option (Execution Layout))
  | .forward bottom => (layer.forwardCpu bottom).map fun result => (result.1, some result.2)
  | .backward propagateDown bottom =>
    (layer.backwardCpu propagateDown bottom).map fun executed => (layer, executed)

def run (layer : MKLReLULayer Layout) :
    List (ReLUCall Layout) → Option (MKLReLULayer Layout × List (Execution Layout))
  | [] => some (layer, [])
  | call :: calls => do
    let (layer, executed) ← layer.step call
    let (layer, log) ← run layer calls
    pure (layer, executed.toList ++ log)

end MKLReLULayer

namespace Execution

variable {Layout : Type}

def src : Execution Layout → Layout
  | .forward _ src _ => src
  | .backward _ src _ _ => src

def dataLayout : Execution Layout → Layout
  | .forward primitive _ _ => primitive.dataLayout
  | .backward primitive _ _ _ => primitive.dataLayout

end Execution

namespace ReLUCall

variable {Layout : Type}

def bottom : ReLUCall Layout → BottomData Layout
  | .forward bottom => bottom
  | .backward _ bottom => bottom

def idle : ReLUCall Layout → Bool
  | .backward false _ => true
  | _ => false

def expected (layoutUsr first : Layout) : ReLUCall Layout → Option (Execution Layout)
  | .forward bottom => some (.forward ⟨first⟩ (bottom.layout layoutUsr) first)
  | .backward true bottom => some (.backward ⟨first, first⟩ (bottom.layout layoutUsr) first first)
  | .backward false _ => none

end ReLUCall

namespace MKLReLULayer

variable {Layout : Type} [DecidableEq Layout]

@[simp] theorem resourceLayout_some (layer : MKLReLULayer Layout) (layout : Layout) :
    layer.resourceLayout (some layout) = layout := by
  by_cases same : layout = layer.layoutUsr <;> simp [resourceLayout, conversionNeeded, same]

structure Created (layer : MKLReLULayer Layout) (first : Layout) : Prop where
  reluFwd : layer.reluFwd = some ⟨first⟩
  reluBwd : layer.reluBwd = some ⟨first, first⟩
  fwdTopData : layer.resourceLayout layer.fwdTopData = first
  bwdTopDiff : layer.resourceLayout layer.bwdTopDiff = first
  bwdBottomDiff : layer.resourceLayout layer.bwdBottomDiff = first

theorem createPrivate_created (layer : MKLReLULayer Layout) (layout : Layout) :
    (layer.createPrivate layout).Created layout :=
  ⟨rfl, rfl, resourceLayout_some _ _, resourceLayout_some _ _, resourceLayout_some _ _⟩

theorem createUser_created (layoutUsr : Layout) :
    (layerSetUp layoutUsr).createUser.Created layoutUsr :=
  ⟨rfl, rfl, rfl, rfl, rfl⟩

theorem step_of_created {layer : MKLReLULayer Layout} {first : Layout}
    (created : layer.Created first) (call : ReLUCall Layout) :
    layer.step call = some (layer, call.expected layer.layoutUsr first) := by
  rcases call with bottom | ⟨_ | _, bottom⟩
  · cases bottom <;> simp [step, forwardCpu, created.reluFwd, created.fwdTopData,
      ReLUCall.expected]
  · rfl
  · simp [step, backwardCpu, created.reluBwd, created.bwdTopDiff, created.bwdBottomDiff,
      ReLUCall.expected]

theorem run_of_created {layer : MKLReLULayer Layout} {first : Layout}
    (created : layer.Created first) (calls : List (ReLUCall Layout)) :
    layer.run calls =
      some (layer, calls.filterMap (ReLUCall.expected layer.layoutUsr first)) := by
  induction calls with
  | nil => rfl
  | cons call calls induction =>
    simp only [run, step_of_created created, induction, Option.bind_eq_bind, Option.some_bind]
    cases executes : call.expected layer.layoutUsr first <;> simp [List.filterMap_cons, executes]

theorem run_idle (layer : MKLReLULayer Layout) {idle : List (ReLUCall Layout)}
    (before : ∀ call ∈ idle, ∃ bottom, call = .backward false bottom)
    (calls : List (ReLUCall Layout)) : layer.run (idle ++ calls) = layer.run calls := by
  induction idle with
  | nil => rfl
  | cons call idle induction =>
    obtain ⟨bottom, rfl⟩ := before _ (List.mem_cons_self _ _)
    have skipped : layer.step (.backward false bottom) = some (layer, none) := rfl
    simp only [List.cons_append, run, skipped, Option.bind_eq_bind, Option.some_bind,
      Option.toList_none, List.nil_append, List.append_eq]
    rw [induction fun call member => before call (List.mem_cons_of_mem _ member)]
    cases layer.run calls <;> rfl

theorem step_first_forward (layoutUsr : Layout) {bottom : BottomData Layout}
    (checked : bottom.passesCheck = true) :
    ∃ layer, (layerSetUp layoutUsr).step (.forward bottom) =
        some (layer, (ReLUCall.forward bottom).expected layoutUsr (bottom.layout layoutUsr)) ∧
      layer.Created (bottom.layout layoutUsr) ∧ layer.layoutUsr = layoutUsr := by
  cases bottom with
  | prv descrType layout =>
    simp only [BottomData.passesCheck, beq_iff_eq] at checked
    exact ⟨(layerSetUp layoutUsr).createPrivate layout, by simp [step, forwardCpu, layerSetUp,
      checked, createPrivate, ReLUCall.expected, BottomData.layout], createPrivate_created _ layout,
      rfl⟩
  | cpu => exact ⟨_, rfl, createUser_created layoutUsr, rfl⟩

theorem run_backward_before_forward (layoutUsr : Layout) (bottom : BottomData Layout)
    (calls : List (ReLUCall Layout)) :
    (layerSetUp layoutUsr).run (.backward true bottom :: calls) = none := rfl

theorem run_first_forward_unchecked (layoutUsr layout : Layout) (calls : List (ReLUCall Layout)) :
    (layerSetUp layoutUsr).run (.forward (.prv .mkldnn layout) :: calls) = none := rfl

theorem relu_executes_for_first_forward_layout (layoutUsr : Layout)
    {idle : List (ReLUCall Layout)} {bottom : BottomData Layout}
    (before : ∀ call ∈ idle, ∃ bottom, call = .backward false bottom)
    (checked : bottom.passesCheck = true) (calls : List (ReLUCall Layout)) :
    ∃ layer, (layerSetUp layoutUsr).run (idle ++ .forward bottom :: calls) =
      some (layer, (idle ++ .forward bottom :: calls).filterMap
        (ReLUCall.expected layoutUsr (bottom.layout layoutUsr))) := by
  obtain ⟨layer, first, created, usr⟩ := step_first_forward layoutUsr checked
  have silent : idle.filterMap (ReLUCall.expected layoutUsr (bottom.layout layoutUsr)) = [] :=
    List.filterMap_eq_nil_iff.mpr fun call member => by
      obtain ⟨_, rfl⟩ := before call member
      rfl
  refine ⟨layer, ?_⟩
  rw [run_idle _ before, List.filterMap_append, silent, List.nil_append, run, first]
  simp [run_of_created created, usr, ReLUCall.expected]

/- The bottom of the first forward pass is MKL2017 private data in layout `1`, that of the
backward pass after it only cpu data, in the user layout `0`. -/
theorem relu_executes_for_first_forward_layout_backward_on_cpu :
    ∃ layer, (layerSetUp 0).run
        ([.backward false .cpu] ++ .forward (.prv .mkl2017 1) :: [.backward true .cpu]) =
      some (layer, [.forward ⟨1⟩ 1 1, .backward ⟨1, 1⟩ 0 1 1]) := by
  obtain ⟨layer, ran⟩ := relu_executes_for_first_forward_layout (0 : Nat)
    (show ∀ call ∈ [ReLUCall.backward false .cpu], ∃ bottom, call = .backward false bottom from
      fun _ member => ⟨.cpu, List.mem_singleton.mp member⟩)
    (show (BottomData.prv .mkl2017 1).passesCheck = true from rfl) [.backward true .cpu]
  exact ⟨layer, ran⟩

theorem run_eq_none_iff (layoutUsr : Layout) (calls : List (ReLUCall Layout)) :
    (layerSetUp layoutUsr).run calls = none ↔
      match calls.find? fun call => !call.idle with
      | some (.forward bottom) => bottom.passesCheck = false
      | some (.backward _ _) => True
      | none => False := by
  induction calls with
  | nil => simp [run]
  | cons call calls induction =>
    rcases call with bottom | ⟨_ | _, bottom⟩
    · simp only [List.find?_cons, ReLUCall.idle, Bool.not_false]
      cases checked : bottom.passesCheck
      · obtain ⟨_ | _, layout⟩ | _ := bottom
        · cases checked
        · exact iff_of_true (run_first_forward_unchecked layoutUsr layout calls) rfl
        · cases checked
      · obtain ⟨layer, first, created, -⟩ := step_first_forward layoutUsr checked
        simp [run, first, run_of_created created]
    · rw [← List.singleton_append, run_idle _ (by simp) calls]
      simpa [List.find?_cons, ReLUCall.idle] using induction
    · simp [run_backward_before_forward, List.find?_cons, ReLUCall.idle]

/- A bottom that changes layout after the first forward pass: the second `Forward_cpu` runs the
primitive made for layout `1` on cpu data in the user layout `0`. -/
theorem relu_forward_after_layout_change :
    (layerSetUp 0).run [.forward (.prv .mkl2017 1), .forward .cpu] =
      some (⟨0, some 1, some 1, some 1, some ⟨1⟩, some ⟨1, 1⟩⟩,
        [.forward ⟨1⟩ 1 1, .forward ⟨1⟩ 0 1]) := rfl

end MKLReLULayer

end IntelCaffe
