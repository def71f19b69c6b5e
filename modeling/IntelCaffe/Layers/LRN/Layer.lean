import IntelCaffe.Util.MathFunctions

/-! # `LRNLayer` across channels

`LayerSetUp` and `Reshape` for `ACROSS_CHANNELS`, and the calls `CrossChannelForward_cpu` and
`CrossChannelBackward_cpu` make into `math_functions.hpp`, in the order they make them. The
images of the `omp parallel for` loops are taken in the order `order`, and image `n` runs
on the thread `tid n`. `num_of_threads_` is computed as in an OpenMP build, from
`omp_get_max_threads()`.
-/

namespace IntelCaffe

structure BlobShape where
  num : Nat
  channels : Nat
  height : Nat
  width : Nat
  deriving DecidableEq, Repr

namespace BlobShape

def count (shape : BlobShape) : Nat :=
  shape.num * shape.channels * shape.height * shape.width

/-- `Blob::offset(n, c, h, w)`. -/
def offset (shape : BlobShape) (n c h w : Nat) : Nat :=
  ((n * shape.channels + c) * shape.height + h) * shape.width + w

end BlobShape

/-- The fields of `LRNParameter` that `ACROSS_CHANNELS` reads. -/
structure LRNParameter (α : Type) where
  localSize : Nat
  alpha : α
  beta : α
  k : α

/-- The members of `LRNLayer` the cross-channel passes read. -/
structure LRNLayer (α : Type) where
  size : Nat
  prePad : Nat
  alpha : α
  beta : α
  k : α
  num : Nat
  channels : Nat
  height : Nat
  width : Nat
  numOfThreads : Nat

inductive LRNBuffer
  | bottomData
  | bottomDiff
  | topData
  | topDiff
  | scaleData
  | paddedRatioData
  | accumRatioData
  | accumRatioTimesBottom
  deriving DecidableEq, Repr

namespace LRNLayer

variable {α : Type}

/-- `LRNLayer::LayerSetUp` for `ACROSS_CHANNELS`. -/
def layerSetUp (param : LRNParameter α) : Except String (LRNLayer α) :=
  if param.localSize % 2 = 1 then
    .ok ⟨param.localSize, (param.localSize - 1) / 2, param.alpha, param.beta, param.k,
      0, 0, 0, 0, 0⟩
  else .error "LRN only supports odd values for local_size"

/-- `LRNLayer::Reshape` for `ACROSS_CHANNELS`. -/
def reshape (bottom : BlobShape) (maxThreads : Nat) (layer : LRNLayer α) : LRNLayer α :=
  let numOfThreads := if maxThreads < bottom.num then maxThreads else bottom.num
  { layer with
    num := bottom.num
    channels := bottom.channels
    height := bottom.height
    width := bottom.width
    numOfThreads := if numOfThreads < 1 then 1 else numOfThreads }

/-- `Layer::SetUp`: `LayerSetUp`, then `Reshape`. -/
def setUp (param : LRNParameter α) (bottom : BlobShape) (maxThreads : Nat) :
    Except String (LRNLayer α) :=
  (layerSetUp param).map (reshape bottom maxThreads)

def scaleShape (layer : LRNLayer α) : BlobShape :=
  ⟨layer.num, layer.channels, layer.height, layer.width⟩

def paddedRatioShape (layer : LRNLayer α) : BlobShape :=
  ⟨layer.numOfThreads, layer.channels + layer.size - 1, layer.height, layer.width⟩

def accumRatioShape (layer : LRNLayer α) : BlobShape :=
  ⟨layer.numOfThreads, 1, layer.height, layer.width⟩

def capacity (layer : LRNLayer α) : LRNBuffer → Nat
  | .bottomData | .bottomDiff | .topData | .topDiff | .scaleData => layer.scaleShape.count
  | .paddedRatioData => layer.paddedRatioShape.count
  | .accumRatioData | .accumRatioTimesBottom => layer.accumRatioShape.count

/-- `limit` of `CrossChannelForward_cpu`. -/
def limit (layer : LRNLayer α) : Nat :=
  if layer.prePad < layer.channels - 1 then layer.prePad else layer.channels - 1

/-- `inverse_pre_pad` of `CrossChannelBackward_cpu`. -/
def inversePrePad (layer : LRNLayer α) : Nat :=
  layer.size - (layer.size + 1) / 2

variable [Field α]

def alphaOverSize (layer : LRNLayer α) : α := layer.alpha / layer.size

def cacheRatioValue (layer : LRNLayer α) : α := 2 * layer.alpha * layer.beta / layer.size

/-- `scale_data + scale_.offset(n, c)`. -/
def scaleAt (layer : LRNLayer α) (n c : Nat) : Slice LRNBuffer :=
  ⟨.scaleData, layer.scaleShape.offset n c 0 0⟩

/-- `top_data + scale_.offset(n, c)`. -/
def topAt (layer : LRNLayer α) (n c : Nat) : Slice LRNBuffer :=
  ⟨.topData, layer.scaleShape.offset n c 0 0⟩

/-- Turn `c` of the channel loop of `CrossChannelForward_cpu`. -/
def forwardChannel (layer : LRNLayer α) (n c : Nat) : List (MathCall LRNBuffer α) :=
  let planeSize := layer.height * layer.width
  [.copy planeSize (layer.scaleAt n (c - 1)) (layer.scaleAt n c)] ++
  (if c < layer.channels - layer.prePad then
    [.axpy planeSize layer.alphaOverSize (layer.topAt n (c + layer.prePad)) (layer.scaleAt n c)]
  else []) ++
  (if c > layer.prePad then
    [.axpy planeSize (-layer.alphaOverSize) (layer.topAt n (c - layer.prePad - 1))
      (layer.scaleAt n c)]
  else [])

/-- The image loop body of `CrossChannelForward_cpu`. -/
def forwardImage (layer : LRNLayer α) (n : Nat) : List (MathCall LRNBuffer α) :=
  let planeSize := layer.height * layer.width
  [.set (layer.limit * layer.height * layer.width) layer.k (layer.scaleAt n 0)] ++
  (List.range (layer.limit + 1)).map (fun c =>
    .axpy planeSize layer.alphaOverSize (layer.topAt n c) (layer.scaleAt n 0)) ++
  (List.range' 1 (layer.channels - 1)).flatMap (layer.forwardChannel n)

/-- `LRNLayer::CrossChannelForward_cpu`. -/
def crossChannelForward (layer : LRNLayer α) (order : List Nat) :
    List (MathCall LRNBuffer α) :=
  [.sqr (layer.num * layer.channels * layer.height * layer.width) ⟨.bottomData, 0⟩
    ⟨.topData, 0⟩] ++
  order.flatMap layer.forwardImage ++
  [.powx layer.scaleShape.count ⟨.scaleData, 0⟩ (-layer.beta) ⟨.topData, 0⟩,
    .mul layer.scaleShape.count ⟨.topData, 0⟩ ⟨.bottomData, 0⟩ ⟨.topData, 0⟩]

/-- `padded_ratio_data + padded_ratio_.offset(tid, c)`. -/
def paddedRatioAt (layer : LRNLayer α) (tid c : Nat) : Slice LRNBuffer :=
  ⟨.paddedRatioData, layer.paddedRatioShape.offset tid c 0 0⟩

/-- `accum_ratio_data + accum_ratio_.offset(tid, 0)`. -/
def accumRatioAt (layer : LRNLayer α) (tid : Nat) : Slice LRNBuffer :=
  ⟨.accumRatioData, layer.accumRatioShape.offset tid 0 0 0⟩

/-- `accum_ratio_times_bottom + accum_ratio_.offset(tid, 0)`. -/
def accumRatioTimesBottomAt (layer : LRNLayer α) (tid : Nat) : Slice LRNBuffer :=
  ⟨.accumRatioTimesBottom, layer.accumRatioShape.offset tid 0 0 0⟩

/-- Turn `c` of the channel loop of `CrossChannelBackward_cpu`. -/
def backwardChannel (layer : LRNLayer α) (n tid c : Nat) : List (MathCall LRNBuffer α) :=
  let planeSize := layer.height * layer.width
  let accum := layer.accumRatioAt tid
  [.add planeSize accum (layer.paddedRatioAt tid (c + layer.size - 1)) accum,
    .mul planeSize ⟨.bottomData, layer.scaleShape.offset n c 0 0⟩ accum
      (layer.accumRatioTimesBottomAt tid),
    .axpy planeSize (-layer.cacheRatioValue) (layer.accumRatioTimesBottomAt tid)
      ⟨.bottomDiff, layer.scaleShape.offset n c 0 0⟩,
    .sub planeSize accum (layer.paddedRatioAt tid c) accum]

/-- The image loop body of `CrossChannelBackward_cpu`. -/
def backwardImage (layer : LRNLayer α) (n tid : Nat) : List (MathCall LRNBuffer α) :=
  let planeSize := layer.height * layer.width
  let blockOffset := layer.scaleShape.offset n 0 0 0
  let ratio := layer.paddedRatioAt tid layer.inversePrePad
  let accum := layer.accumRatioAt tid
  [.mul (layer.channels * layer.height * layer.width) ⟨.topDiff, blockOffset⟩
      ⟨.topData, blockOffset⟩ ratio,
    .div (layer.channels * layer.height * layer.width) ratio ⟨.scaleData, blockOffset⟩ ratio,
    .set (layer.height * layer.width) 0 accum] ++
  (List.range (layer.size - 1)).map (fun c =>
    .add planeSize accum (layer.paddedRatioAt tid c) accum) ++
  (List.range layer.channels).flatMap (layer.backwardChannel n tid)

/-- `LRNLayer::CrossChannelBackward_cpu`. -/
def crossChannelBackward (layer : LRNLayer α) (order : List Nat) (tid : Nat → Nat) :
    List (MathCall LRNBuffer α) :=
  [.set layer.paddedRatioShape.count 0 ⟨.paddedRatioData, 0⟩,
    .powx layer.scaleShape.count ⟨.scaleData, 0⟩ (-layer.beta) ⟨.bottomDiff, 0⟩,
    .mul layer.scaleShape.count ⟨.topDiff, 0⟩ ⟨.bottomDiff, 0⟩ ⟨.bottomDiff, 0⟩] ++
  order.flatMap fun n => layer.backwardImage n (tid n)

end LRNLayer

end IntelCaffe
