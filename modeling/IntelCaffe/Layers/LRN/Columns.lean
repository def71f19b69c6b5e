import IntelCaffe.Layers.LRN.Bounds

/-! # The passes one element of a plane at a time

Every call of `CrossChannelForward_cpu` and `CrossChannelBackward_cpu` covers whole planes of
`height * width` elements from plane boundaries. Element `hw` of every plane therefore goes
through the same pass as a layer whose planes hold one element (`unit`), and everything the
later modules prove about the passes is proved on that layer.
-/

namespace IntelCaffe

theorem BlobShape.offset_eq_column (shape : BlobShape) (n c h w : Nat) :
    shape.offset n c h w = (n * shape.channels + c) * (shape.height * shape.width) +
      (h * shape.width + w) := by
  simp only [BlobShape.offset, Nat.add_mul, Nat.mul_assoc, Nat.add_assoc]

theorem BlobShape.pixel_lt (shape : BlobShape) {h w : Nat} (row : h < shape.height)
    (col : w < shape.width) : h * shape.width + w < shape.height * shape.width := by
  have := Nat.mul_le_mul_right shape.width (show h + 1 ≤ shape.height from row)
  rw [Nat.succ_mul] at this
  omega

namespace LRNLayer

variable {α : Type} (layer : LRNLayer α)

def unit : LRNLayer α := { layer with height := 1, width := 1 }

@[simp] theorem unit_channels : layer.unit.channels = layer.channels := rfl
@[simp] theorem unit_num : layer.unit.num = layer.num := rfl
@[simp] theorem unit_size : layer.unit.size = layer.size := rfl
@[simp] theorem unit_prePad : layer.unit.prePad = layer.prePad := rfl
@[simp] theorem unit_numOfThreads : layer.unit.numOfThreads = layer.numOfThreads := rfl
@[simp] theorem unit_k : layer.unit.k = layer.k := rfl
@[simp] theorem unit_beta : layer.unit.beta = layer.beta := rfl
@[simp] theorem unit_height : layer.unit.height = 1 := rfl
@[simp] theorem unit_width : layer.unit.width = 1 := rfl
@[simp] theorem unit_limit : layer.unit.limit = layer.limit := rfl
@[simp] theorem unit_inversePrePad : layer.unit.inversePrePad = layer.inversePrePad := rfl

@[simp] theorem unit_scaleShape_offset (n c : Nat) :
    layer.unit.scaleShape.offset n c 0 0 = n * layer.channels + c := by
  simp [BlobShape.offset, scaleShape, unit]

@[simp] theorem unit_paddedRatioShape_offset (tid c : Nat) :
    layer.unit.paddedRatioShape.offset tid c 0 0 =
      tid * (layer.channels + layer.size - 1) + c := by
  simp [BlobShape.offset, paddedRatioShape, unit]

@[simp] theorem unit_accumRatioShape_offset (tid : Nat) :
    layer.unit.accumRatioShape.offset tid 0 0 0 = tid := by
  simp [BlobShape.offset, accumRatioShape, unit]

@[simp] theorem unit_scaleAt (n c : Nat) :
    layer.unit.scaleAt n c = ⟨.scaleData, n * layer.channels + c⟩ := by
  simp [scaleAt]

@[simp] theorem unit_topAt (n c : Nat) :
    layer.unit.topAt n c = ⟨.topData, n * layer.channels + c⟩ := by
  simp [topAt]

@[simp] theorem unit_paddedRatioAt (tid c : Nat) :
    layer.unit.paddedRatioAt tid c =
      ⟨.paddedRatioData, tid * (layer.channels + layer.size - 1) + c⟩ := by
  simp [paddedRatioAt]

@[simp] theorem unit_accumRatioAt (tid : Nat) :
    layer.unit.accumRatioAt tid = ⟨.accumRatioData, tid⟩ := by
  simp [accumRatioAt]

@[simp] theorem unit_accumRatioTimesBottomAt (tid : Nat) :
    layer.unit.accumRatioTimesBottomAt tid = ⟨.accumRatioTimesBottom, tid⟩ := by
  simp [accumRatioTimesBottomAt]

theorem image_plane_lt {n c : Nat} (image : n < layer.num) (channel : c < layer.channels) :
    n * layer.channels + c < layer.num * layer.channels := by
  have := block_fits image (show c + 1 ≤ layer.channels from channel)
  omega

theorem column_offset (memory : Memory LRNBuffer α) (buffer : LRNBuffer) (n c h w : Nat) :
    memory.column (layer.height * layer.width) (h * layer.width + w) buffer
        (n * layer.channels + c) = memory buffer (layer.scaleShape.offset n c h w) := by
  rw [Memory.column, BlobShape.offset_eq_column]
  rfl

theorem column_offset_zero (memory : Memory LRNBuffer α) (buffer : LRNBuffer) (n h w : Nat) :
    memory.column (layer.height * layer.width) (h * layer.width + w) buffer
        (n * layer.channels) = memory buffer (layer.scaleShape.offset n 0 h w) :=
  layer.column_offset memory buffer n 0 h w

@[simp] theorem unit_alphaOverSize [Field α] :
    layer.unit.alphaOverSize = layer.alphaOverSize := rfl
@[simp] theorem unit_cacheRatioValue [Field α] :
    layer.unit.cacheRatioValue = layer.cacheRatioValue := rfl

variable [Field α]

theorem forwardChannel_planewise (n : Nat) :
    layer.forwardChannel n = fun c =>
      (layer.unit.forwardChannel n c).map (MathCall.planewise (layer.height * layer.width)) := by
  funext c
  rw [forwardChannel, forwardChannel]
  simp only [unit_channels, unit_prePad]
  split_ifs <;>
    simp [MathCall.planewise, Slice.planewise, scaleAt, topAt, scaleShape, BlobShape.offset,
      Nat.mul_assoc]

theorem forwardImage_planewise :
    layer.forwardImage = fun n =>
      (layer.unit.forwardImage n).map (MathCall.planewise (layer.height * layer.width)) := by
  funext n
  simp [forwardImage, forwardChannel_planewise layer n, List.map_flatMap, Function.comp_def,
    MathCall.planewise,
    Slice.planewise, scaleAt, topAt, scaleShape, BlobShape.offset, Nat.mul_assoc]

theorem crossChannelForward_planewise (order : List Nat) :
    layer.crossChannelForward order = (layer.unit.crossChannelForward order).map
      (MathCall.planewise (layer.height * layer.width)) := by
  simp [crossChannelForward, forwardImage_planewise layer, List.map_flatMap, MathCall.planewise,
    Slice.planewise, scaleShape, BlobShape.count, Nat.mul_assoc]

theorem backwardChannel_planewise (n tid : Nat) :
    layer.backwardChannel n tid = fun c => (layer.unit.backwardChannel n tid c).map
      (MathCall.planewise (layer.height * layer.width)) := by
  funext c
  simp [backwardChannel, MathCall.planewise, Slice.planewise, paddedRatioAt, accumRatioAt,
    accumRatioTimesBottomAt, scaleShape, paddedRatioShape, accumRatioShape, BlobShape.offset,
    Nat.mul_assoc]

theorem backwardImage_planewise (n tid : Nat) :
    layer.backwardImage n tid = (layer.unit.backwardImage n tid).map
      (MathCall.planewise (layer.height * layer.width)) := by
  simp [backwardImage, backwardChannel_planewise layer n tid, List.map_flatMap, Function.comp_def,
    MathCall.planewise,
    Slice.planewise, paddedRatioAt, accumRatioAt, scaleShape, paddedRatioShape, accumRatioShape,
    BlobShape.offset, Nat.mul_assoc]

theorem crossChannelBackward_planewise (order : List Nat) (tid : Nat → Nat) :
    layer.crossChannelBackward order tid = (layer.unit.crossChannelBackward order tid).map
      (MathCall.planewise (layer.height * layer.width)) := by
  simp [crossChannelBackward, backwardImage_planewise layer, List.map_flatMap, MathCall.planewise,
    Slice.planewise, scaleShape, paddedRatioShape, BlobShape.count, Nat.mul_assoc]

theorem crossChannelForward_column (pow : α → α → α) (order : List Nat)
    (memory : Memory LRNBuffer α) {hw : Nat} (within : hw < layer.height * layer.width) :
    (runCalls pow (layer.crossChannelForward order) memory).column (layer.height * layer.width) hw =
      runCalls pow (layer.unit.crossChannelForward order)
        (memory.column (layer.height * layer.width) hw) := by
  rw [crossChannelForward_planewise, runCalls_column pow within]

theorem crossChannelBackward_column (pow : α → α → α) (order : List Nat) (tid : Nat → Nat)
    (memory : Memory LRNBuffer α) {hw : Nat} (within : hw < layer.height * layer.width) :
    (runCalls pow (layer.crossChannelBackward order tid) memory).column
        (layer.height * layer.width) hw =
      runCalls pow (layer.unit.crossChannelBackward order tid)
        (memory.column (layer.height * layer.width) hw) := by
  rw [crossChannelBackward_planewise, runCalls_column pow within]

end LRNLayer

end IntelCaffe
