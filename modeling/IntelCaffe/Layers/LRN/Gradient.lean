import IntelCaffe.Layers.LRN.Backward
import Mathlib.Analysis.SpecialFunctions.Pow.Deriv
import Mathlib.Analysis.InnerProductSpace.Basic

/-! # The backward pass is the derivative of the forward pass

Over the reals: after `CrossChannelForward_cpu`, the bottom diff `CrossChannelBackward_cpu`
leaves for an element of the bottom is the derivative, in that element, of the dot product of
the top diff with the top the forward pass computes, whatever the order of the images in either
pass and the slots of the scratch buffers.

`caffe_powx` is `Real.rpow`, which agrees with it on positive scales only (on a negative scale
`powx` gives NaN). The statement therefore takes `alpha ≥ 0`, `k > 0`, two channels or more
and `local_size` 3 or more: then every scale starts from `k` and is at least `k`
(`start_le_columnScale`), for every input.

An element of the bottom enters the tops of its own column `(n, h, w)` only, through the scales
of the channels whose window holds it, so the proof is made on one column (`hasDerivAt_column`)
and the other columns are constants.
-/

namespace IntelCaffe

theorem BlobShape.offset_inj (shape : BlobShape) {n c h w n' c' h' w' : Nat}
    (channel : c < shape.channels) (channel' : c' < shape.channels) (row : h < shape.height)
    (row' : h' < shape.height) (col : w < shape.width) (col' : w' < shape.width)
    (same : shape.offset n c h w = shape.offset n' c' h' w') :
    n = n' ∧ c = c' ∧ h = h' ∧ w = w' := by
  obtain ⟨planes, rfl⟩ := LRNLayer.slot_index_inj col col' same
  obtain ⟨images, rfl⟩ := LRNLayer.slot_index_inj row row' planes
  obtain ⟨rfl, rfl⟩ := LRNLayer.slot_index_inj channel channel' images
  exact ⟨rfl, rfl, rfl, rfl⟩

theorem BlobShape.offset_channel_iff (shape : BlobShape) {n c c' h w : Nat}
    (row : h < shape.height) (col : w < shape.width) :
    shape.offset n c' h w = shape.offset n c h w ↔ c' = c := by
  refine ⟨fun same => ?_, fun same => same ▸ rfl⟩
  obtain ⟨planes, -⟩ := LRNLayer.slot_index_inj col col same
  exact Nat.add_left_cancel (LRNLayer.slot_index_inj row row planes).1

theorem sum_range_mul {β : Type} [AddCommMonoid β] (f : Nat → β) (size inner : Nat) :
    ∑ i in Finset.range (size * inner), f i =
      ∑ j in Finset.range size, ∑ k in Finset.range inner, f (j * inner + k) := by
  induction size with
  | zero => simp
  | succ size induction =>
    rw [Nat.succ_mul, Finset.sum_range_add, induction, Finset.sum_range_succ]

theorem hasDerivAt_sum_single {ι : Type} [DecidableEq ι] {s : Finset ι} {j : ι}
    (member : j ∈ s) {term : ι → ℝ → ℝ} {derivative x : ℝ}
    (constant : ∀ i ∈ s, i ≠ j → ∀ t, term i t = term i x)
    (single : HasDerivAt (term j) derivative x) :
    HasDerivAt (fun t => ∑ i in s, term i t) derivative x := by
  have split : (fun t => ∑ i in s, term i t) = fun t => term j t + ∑ i in s.erase j, term i x :=
    funext fun t => by
      rw [← Finset.add_sum_erase s _ member]
      exact congrArg _ (Finset.sum_congr rfl fun i other =>
        constant i (Finset.mem_of_mem_erase other) (Finset.ne_of_mem_erase other) t)
  rw [split]
  exact single.add_const _

namespace LRNLayer

variable {α : Type}

def setBottom (memory : Memory LRNBuffer α) (index : Nat) (t : α) : Memory LRNBuffer α :=
  Function.update memory .bottomData (Function.update (memory .bottomData) index t)

@[simp] theorem setBottom_bottomData (memory : Memory LRNBuffer α) (index : Nat) (t : α)
    (i : Nat) : setBottom memory index t .bottomData i = if i = index then t else
      memory .bottomData i := by
  simp [setBottom, Function.update_apply]

@[simp] theorem setBottom_of_ne (memory : Memory LRNBuffer α) (index : Nat) (t : α)
    {buffer : LRNBuffer} (other : buffer ≠ .bottomData) (i : Nat) :
    setBottom memory index t buffer i = memory buffer i := by
  simp [setBottom, Function.update_noteq other]

def topPairing [Mul α] [AddCommMonoid α] (count : Nat) (memory : Memory LRNBuffer α) : α :=
  ∑ i in Finset.range count, memory .topDiff i * memory .topData i

variable (layer : LRNLayer α)

def bottomColumn (memory : Memory LRNBuffer α) (n h w c : Nat) : α :=
  memory .bottomData (layer.scaleShape.offset n c h w)

def columnPairing [Mul α] [AddCommMonoid α] (memory : Memory LRNBuffer α) (n h w : Nat) : α :=
  ∑ c in Finset.range layer.channels,
    memory .topDiff (layer.scaleShape.offset n c h w) *
      memory .topData (layer.scaleShape.offset n c h w)

theorem topPairing_eq_columns [Mul α] [AddCommMonoid α] (memory : Memory LRNBuffer α) :
    topPairing layer.scaleShape.count memory =
      ∑ p in Finset.range layer.num ×ˢ Finset.range layer.height ×ˢ Finset.range layer.width,
        layer.columnPairing memory p.1 p.2.1 p.2.2 := by
  simp only [topPairing, scaleShape, BlobShape.count, sum_range_mul, Finset.sum_product,
    columnPairing]
  refine Finset.sum_congr rfl fun n _ => ?_
  rw [Finset.sum_comm]
  exact Finset.sum_congr rfl fun h _ => Finset.sum_comm

theorem bottomColumn_setBottom (memory : Memory LRNBuffer α) {n c h w : Nat} (t : α)
    (row : h < layer.height) (col : w < layer.width) :
    layer.bottomColumn (setBottom memory (layer.scaleShape.offset n c h w) t) n h w =
      Function.update (layer.bottomColumn memory n h w) c t := by
  funext c'
  simp only [bottomColumn, setBottom_bottomData, Function.update_apply,
    layer.scaleShape.offset_channel_iff (n := n) row col]

theorem bottomColumn_setBottom_apart (memory : Memory LRNBuffer α) {n c h w n' c' h' w' : Nat}
    (t : α) (apart : ¬ (n' = n ∧ h' = h ∧ w' = w)) (channel : c < layer.channels)
    (channel' : c' < layer.channels) (row : h < layer.height) (row' : h' < layer.height)
    (col : w < layer.width) (col' : w' < layer.width) :
    layer.bottomColumn (setBottom memory (layer.scaleShape.offset n c h w) t) n' h' w' c' =
      layer.bottomColumn memory n' h' w' c' := by
  rw [bottomColumn, setBottom_bottomData, if_neg fun same => apart ?_]
  · rfl
  obtain ⟨rfl, -, rfl, rfl⟩ :=
    layer.scaleShape.offset_inj channel' channel row' row col' col same
  exact ⟨rfl, rfl, rfl⟩

def scaleStart (memory : Memory LRNBuffer α) (n h w : Nat) : α :=
  if 0 < layer.limit then layer.k else memory .scaleData (layer.scaleShape.offset n 0 h w)

theorem scaleStart_setBottom (memory : Memory LRNBuffer α) (index : Nat) (t : α) (n h w : Nat) :
    layer.scaleStart (setBottom memory index t) n h w = layer.scaleStart memory n h w := by
  simp [scaleStart]

theorem mem_window_comm {c c' : Nat} (channel : c < layer.channels)
    (channel' : c' < layer.channels) : c ∈ layer.window c' ↔ c' ∈ layer.window c := by
  rw [layer.mem_window (by omega), layer.mem_window (by omega)]
  omega

theorem self_mem_window {c : Nat} (channel : c < layer.channels) : c ∈ layer.window c :=
  (layer.mem_window (by omega)).mpr ⟨Nat.sub_le _ _, Nat.le_add_right _ _, channel⟩

theorem range_filter_window {c : Nat} (channel : c < layer.channels) :
    (Finset.range layer.channels).filter (· ∈ layer.window c) = layer.window c := by
  ext c'
  simp only [Finset.mem_filter, Finset.mem_range, and_iff_right_iff_imp]
  exact fun inside => ((layer.mem_window (by omega)).mp inside).2.2

variable [Field α]

def columnScale (start : α) (x : Nat → α) (c : Nat) : α :=
  start + layer.alphaOverSize * ∑ c' in layer.window c, x c' ^ 2

theorem columnScale_congr (start : α) {x x' : Nat → α} {c : Nat}
    (agree : ∀ c' ∈ layer.window c, x c' = x' c') :
    layer.columnScale start x c = layer.columnScale start x' c := by
  simp only [columnScale, Finset.sum_congr rfl fun c' member => congrArg (· ^ 2) (agree c' member)]

theorem crossChannelForward_scale_column (pow : α → α → α) {order : List Nat}
    (schedule : order.Perm (List.range layer.num)) (memory : Memory LRNBuffer α) {n c h w : Nat}
    (image : n < layer.num) (channel : c < layer.channels) (row : h < layer.height)
    (col : w < layer.width) :
    runCalls pow (layer.crossChannelForward order) memory .scaleData
        (layer.scaleShape.offset n c h w) =
      layer.columnScale (layer.scaleStart memory n h w) (layer.bottomColumn memory n h w) c :=
  layer.crossChannelForward_scale pow schedule memory image channel row col

theorem crossChannelForward_top_column (pow : α → α → α) {order : List Nat}
    (schedule : order.Perm (List.range layer.num)) (memory : Memory LRNBuffer α) {n c h w : Nat}
    (image : n < layer.num) (channel : c < layer.channels) (row : h < layer.height)
    (col : w < layer.width) :
    runCalls pow (layer.crossChannelForward order) memory .topData
        (layer.scaleShape.offset n c h w) =
      pow (layer.columnScale (layer.scaleStart memory n h w) (layer.bottomColumn memory n h w) c)
        (-layer.beta) * layer.bottomColumn memory n h w c := by
  rw [crossChannelForward_top layer pow order memory image channel row col,
    crossChannelForward_scale_column layer pow schedule memory image channel row col]
  rfl

theorem columnPairing_crossChannelForward (pow : α → α → α) {order : List Nat}
    (schedule : order.Perm (List.range layer.num)) (memory : Memory LRNBuffer α) {n h w : Nat}
    (image : n < layer.num) (row : h < layer.height) (col : w < layer.width) :
    layer.columnPairing (runCalls pow (layer.crossChannelForward order) memory) n h w =
      ∑ c in Finset.range layer.channels, memory .topDiff (layer.scaleShape.offset n c h w) *
        (pow (layer.columnScale (layer.scaleStart memory n h w) (layer.bottomColumn memory n h w)
          c) (-layer.beta) * layer.bottomColumn memory n h w c) := by
  refine Finset.sum_congr rfl fun c member => ?_
  rw [crossChannelForward_other layer pow order memory .topDiff (by decide) (by decide),
    crossChannelForward_top_column layer pow schedule memory image (Finset.mem_range.mp member)
      row col]

theorem columnPairing_setBottom_apart (pow : α → α → α) {order : List Nat}
    (schedule : order.Perm (List.range layer.num)) (memory : Memory LRNBuffer α)
    {n c h w n' h' w' : Nat} (t : α) (apart : ¬ (n' = n ∧ h' = h ∧ w' = w))
    (channel : c < layer.channels) (row : h < layer.height) (col : w < layer.width)
    (image' : n' < layer.num) (row' : h' < layer.height) (col' : w' < layer.width) :
    layer.columnPairing (runCalls pow (layer.crossChannelForward order)
        (setBottom memory (layer.scaleShape.offset n c h w) t)) n' h' w' =
      layer.columnPairing (runCalls pow (layer.crossChannelForward order) memory) n' h' w' := by
  have channels : 0 < layer.channels := by omega
  rw [columnPairing_crossChannelForward layer pow schedule _ image' row' col',
    columnPairing_crossChannelForward layer pow schedule _ image' row' col', scaleStart_setBottom]
  refine Finset.sum_congr rfl fun c' member => ?_
  rw [setBottom_of_ne _ _ _ (by decide), layer.columnScale_congr _ fun c'' inside =>
      layer.bottomColumn_setBottom_apart memory t apart channel
        ((layer.mem_window channels).mp inside).2.2 row row' col col',
    layer.bottomColumn_setBottom_apart memory t apart channel (Finset.mem_range.mp member) row
      row' col col']

end LRNLayer

theorem LRNLayer.start_le_columnScale {α : Type} [LinearOrderedField α] (layer : LRNLayer α)
    (nonnegative : 0 ≤ layer.alpha) (start : α) (x : Nat → α) (c : Nat) :
    start ≤ layer.columnScale start x c :=
  le_add_of_nonneg_right (mul_nonneg (div_nonneg nonnegative (Nat.cast_nonneg _))
    (Finset.sum_nonneg fun _ _ => sq_nonneg _))

theorem LRNLayer.cross_channel_forward_scale_ge_k {α : Type} [LinearOrderedField α]
    {param : LRNParameter α} {bottom : BlobShape} {maxThreads : Nat} {layer : LRNLayer α}
    (ok : LRNLayer.setUp param bottom maxThreads = .ok layer) (channels : 2 ≤ bottom.channels)
    (localSize : 3 ≤ param.localSize) (nonnegative : 0 ≤ param.alpha) (pow : α → α → α)
    {order : List Nat} (schedule : order.Perm (List.range bottom.num))
    (memory : Memory LRNBuffer α) {n c h w : Nat} (image : n < bottom.num)
    (channel : c < bottom.channels) (row : h < bottom.height) (col : w < bottom.width) :
    param.k ≤
      runCalls pow (layer.crossChannelForward order) memory .scaleData (bottom.offset n c h w) := by
  have positive := LRNLayer.setUp_limit_pos ok channels localSize
  obtain ⟨-, -, rfl, -, -, alpha, -, k⟩ := LRNLayer.setUp_ok ok
  rw [layer.crossChannelForward_scale_column pow schedule memory image channel row col,
    LRNLayer.scaleStart, if_pos positive, ← k]
  exact layer.start_le_columnScale (alpha ▸ nonnegative) _ _ _

/- Two channels, `local_size` 3, `alpha = 1` and `k = 1`, on an input of `-2`: the scale of
channel `1` is at least `1`. -/
theorem LRNLayer.cross_channel_forward_scale_ge_k_two_channels :
    (1 : ℚ) ≤ runCalls (fun scale _ => scale)
      ((⟨3, 1, 1, 1, 1, 1, 2, 1, 1, 1⟩ : LRNLayer ℚ).crossChannelForward [0]) (fun _ _ => -2)
      .scaleData 1 :=
  LRNLayer.cross_channel_forward_scale_ge_k
    (show LRNLayer.setUp (⟨3, 1, 1, 1⟩ : LRNParameter ℚ) ⟨1, 2, 1, 1⟩ 1 =
      .ok ⟨3, 1, 1, 1, 1, 1, 2, 1, 1, 1⟩ from rfl) (by decide) (by decide) (by norm_num)
    (fun scale _ => scale) (List.Perm.refl [0]) (fun _ _ => -2) (n := 0) (c := 1) (h := 0)
    (w := 0) (by decide) (by decide) (by decide) (by decide)

section Derivative

namespace LRNLayer

variable (layer : LRNLayer ℝ)

theorem hasDerivAt_update (x : Nat → ℝ) (c c' : Nat) :
    HasDerivAt (fun t => Function.update x c t c') (if c' = c then 1 else 0) (x c) := by
  by_cases same : c' = c
  · subst same
    simpa using hasDerivAt_id' (x c')
  · simpa [same, Function.update_noteq same] using hasDerivAt_const (x c) (x c')

theorem hasDerivAt_columnScale (start : ℝ) (x : Nat → ℝ) (c c' : Nat) :
    HasDerivAt (fun t => layer.columnScale start (Function.update x c t) c')
      (layer.alphaOverSize * if c ∈ layer.window c' then 2 * x c else 0) (x c) := by
  have squares := HasDerivAt.sum fun c'' (_ : c'' ∈ layer.window c') =>
    (hasDerivAt_update x c c'').pow 2
  refine ((squares.const_mul layer.alphaOverSize).const_add start).congr_deriv ?_
  simp [Function.update_eq_self, Finset.sum_ite_eq']

theorem hasDerivAt_columnTop (start : ℝ) (x : Nat → ℝ) {c c' : Nat}
    (channel : c < layer.channels) (channel' : c' < layer.channels)
    (nonzero : c' ∈ layer.window c → layer.columnScale start x c' ≠ 0) :
    HasDerivAt (fun t => layer.columnScale start (Function.update x c t) c' ^ (-layer.beta) *
        Function.update x c t c')
      (if c' ∈ layer.window c then
        layer.alphaOverSize * (2 * x c) * -layer.beta *
            layer.columnScale start x c' ^ (-layer.beta - 1) * x c' +
          (if c' = c then layer.columnScale start x c' ^ (-layer.beta) else 0)
      else 0) (x c) := by
  have symmetric := layer.mem_window_comm channel channel'
  by_cases member : c' ∈ layer.window c
  · have scale := layer.hasDerivAt_columnScale start x c c'
    rw [if_pos (symmetric.mpr member)] at scale
    have top := (scale.rpow_const (p := -layer.beta)
      (Or.inl (by simpa [Function.update_eq_self] using nonzero member))).mul
        (hasDerivAt_update x c c')
    rw [if_pos member]
    refine top.congr_deriv ?_
    split_ifs <;> simp [Function.update_eq_self]
  · have other : c' ≠ c := fun same => member (by rw [same]; exact layer.self_mem_window channel)
    have constant : (fun t => layer.columnScale start (Function.update x c t) c' ^ (-layer.beta) *
        Function.update x c t c') = fun _ => layer.columnScale start x c' ^ (-layer.beta) * x c' :=
      funext fun t => by
        rw [Function.update_noteq other, layer.columnScale_congr start fun c'' inside =>
          Function.update_noteq (fun (same : c'' = c) => member (symmetric.mp (same ▸ inside)))
            t x]
    rw [constant, if_neg member]
    exact hasDerivAt_const _ _

theorem hasDerivAt_column (start : ℝ) (x g : Nat → ℝ) {c : Nat} (channel : c < layer.channels)
    (nonzero : ∀ c' ∈ layer.window c, layer.columnScale start x c' ≠ 0) :
    HasDerivAt (fun t => ∑ c' in Finset.range layer.channels,
        g c' * (layer.columnScale start (Function.update x c t) c' ^ (-layer.beta) *
          Function.update x c t c'))
      (g c * layer.columnScale start x c ^ (-layer.beta) - layer.cacheRatioValue * x c *
        ∑ c' in layer.window c, g c' * (layer.columnScale start x c' ^ (-layer.beta) * x c') /
          layer.columnScale start x c') (x c) := by
  refine (HasDerivAt.sum fun c' member => (layer.hasDerivAt_columnTop start x channel
    (Finset.mem_range.mp member) (nonzero c')).const_mul (g c')).congr_deriv ?_
  simp only [mul_ite, mul_zero]
  rw [← Finset.sum_filter, layer.range_filter_window channel]
  have term : ∀ c' ∈ layer.window c, g c' * (layer.alphaOverSize * (2 * x c) * -layer.beta *
        layer.columnScale start x c' ^ (-layer.beta - 1) * x c' +
      (if c' = c then layer.columnScale start x c' ^ (-layer.beta) else 0)) =
      (if c' = c then g c * layer.columnScale start x c ^ (-layer.beta) else 0) -
        layer.cacheRatioValue * x c * (g c' * (layer.columnScale start x c' ^ (-layer.beta) *
          x c') / layer.columnScale start x c') := by
    intro c' inside
    rw [Real.rpow_sub_one (nonzero c' inside)]
    split_ifs with same
    · subst same
      simp only [alphaOverSize, cacheRatioValue]
      ring
    · simp only [alphaOverSize, cacheRatioValue]
      ring
  rw [Finset.sum_congr rfl term, Finset.sum_sub_distrib, Finset.sum_ite_eq',
    if_pos (layer.self_mem_window channel), Finset.mul_sum]

theorem crossChannelBackward_after_forward (odd : layer.size % 2 = 1)
    (prePad : layer.prePad = (layer.size - 1) / 2) {order order' : List Nat}
    (schedule : order.Perm (List.range layer.num)) (schedule' : order'.Perm (List.range layer.num))
    {tid : Nat → Nat} (threads : ∀ n ∈ order', tid n < layer.numOfThreads)
    (memory : Memory LRNBuffer ℝ) {n c h w : Nat} (image : n < layer.num)
    (channel : c < layer.channels) (row : h < layer.height) (col : w < layer.width) :
    runCalls Real.rpow (layer.crossChannelBackward order' tid)
        (runCalls Real.rpow (layer.crossChannelForward order) memory) .bottomDiff
        (layer.scaleShape.offset n c h w) =
      let start := layer.scaleStart memory n h w
      let x := layer.bottomColumn memory n h w
      memory .topDiff (layer.scaleShape.offset n c h w) *
          layer.columnScale start x c ^ (-layer.beta) -
        layer.cacheRatioValue * x c * ∑ c' in layer.window c,
          memory .topDiff (layer.scaleShape.offset n c' h w) *
            (layer.columnScale start x c' ^ (-layer.beta) * x c') /
              layer.columnScale start x c' := by
  have forward := crossChannelForward_other layer Real.rpow order memory
  rw [crossChannelBackward_bottomDiff layer Real.rpow odd prePad schedule' threads _ image channel
    row col, forward .topDiff (by decide) (by decide), forward .bottomData (by decide) (by decide),
    crossChannelForward_scale_column layer Real.rpow schedule memory image channel row col]
  refine congrArg _ (congrArg _ (Finset.sum_congr rfl fun c' inside => ?_))
  have channel' := ((layer.mem_window (by omega)).mp inside).2.2
  rw [forward .topDiff (by decide) (by decide),
    crossChannelForward_top_column layer Real.rpow schedule memory image channel' row col,
    crossChannelForward_scale_column layer Real.rpow schedule memory image channel' row col]
  simp only [Real.rpow_eq_pow]

end LRNLayer

theorem LRNLayer.cross_channel_backward_derivative {param : LRNParameter ℝ}
    {bottom : BlobShape} {maxThreads : Nat} {layer : LRNLayer ℝ}
    (ok : LRNLayer.setUp param bottom maxThreads = .ok layer) (channels : 2 ≤ bottom.channels)
    (localSize : 3 ≤ param.localSize) (positive : 0 < param.k) (nonnegative : 0 ≤ param.alpha)
    {order order' : List Nat} (schedule : order.Perm (List.range bottom.num))
    (schedule' : order'.Perm (List.range bottom.num)) (tid : Nat → Nat)
    (threads : ∀ n ∈ order', tid n < layer.numOfThreads) (memory : Memory LRNBuffer ℝ)
    {n c h w : Nat} (image : n < bottom.num) (channel : c < bottom.channels)
    (row : h < bottom.height) (col : w < bottom.width) :
    HasDerivAt (fun t => LRNLayer.topPairing bottom.count (runCalls Real.rpow
        (layer.crossChannelForward order) (LRNLayer.setBottom memory (bottom.offset n c h w) t)))
      (runCalls Real.rpow (layer.crossChannelBackward order' tid)
        (runCalls Real.rpow (layer.crossChannelForward order) memory) .bottomDiff
        (bottom.offset n c h w))
      (memory .bottomData (bottom.offset n c h w)) := by
  have limit := LRNLayer.setUp_limit_pos ok channels localSize
  obtain ⟨odd, prePad, rfl, -, -, alpha, -, k⟩ := LRNLayer.setUp_ok ok
  have start : 0 < layer.scaleStart memory n h w := by
    rwa [LRNLayer.scaleStart, if_pos limit, k]
  simp only [LRNLayer.topPairing_eq_columns]
  refine hasDerivAt_sum_single (j := (n, h, w))
    (Finset.mem_product.mpr ⟨Finset.mem_range.mpr image, Finset.mem_product.mpr
      ⟨Finset.mem_range.mpr row, Finset.mem_range.mpr col⟩⟩) (fun p member other t => ?_) ?_
  · simp only [Finset.mem_product, Finset.mem_range] at member
    have apart : ¬ (p.1 = n ∧ p.2.1 = h ∧ p.2.2 = w) := fun ⟨image, row, col⟩ =>
      other (Prod.ext image (Prod.ext row col))
    rw [layer.columnPairing_setBottom_apart Real.rpow schedule memory t apart channel row col
        member.1 member.2.1 member.2.2,
      layer.columnPairing_setBottom_apart Real.rpow schedule memory _ apart channel row col
        member.1 member.2.1 member.2.2]
  · have column : (fun t => layer.columnPairing
        (runCalls Real.rpow (layer.crossChannelForward order)
          (LRNLayer.setBottom memory (layer.scaleShape.offset n c h w) t)) n h w) = fun t =>
        ∑ c' in Finset.range layer.channels, memory .topDiff (layer.scaleShape.offset n c' h w) *
          (layer.columnScale (layer.scaleStart memory n h w)
            (Function.update (layer.bottomColumn memory n h w) c t) c' ^ (-layer.beta) *
            Function.update (layer.bottomColumn memory n h w) c t c') := funext fun t => by
      rw [layer.columnPairing_crossChannelForward Real.rpow schedule _ image row col,
        layer.scaleStart_setBottom, layer.bottomColumn_setBottom memory t row col]
      simp only [LRNLayer.setBottom_of_ne _ _ _ (show LRNBuffer.topDiff ≠ .bottomData by decide),
        Real.rpow_eq_pow]
    rw [column, layer.crossChannelBackward_after_forward odd prePad schedule schedule' threads
      memory image channel row col]
    exact layer.hasDerivAt_column _ _ _ channel fun c' _ =>
      (start.trans_le (layer.start_le_columnScale (alpha ▸ nonnegative) _ _ c')).ne'

/- Two channels of one element, `local_size` 3, `alpha = k = 1` and every input and top diff
`1`: the bottom diff of channel `0` is the derivative of the pairing there. -/
theorem LRNLayer.cross_channel_backward_derivative_two_channels :
    HasDerivAt (fun t => LRNLayer.topPairing 2 (runCalls Real.rpow
        ((⟨3, 1, 1, 1, 1, 1, 2, 1, 1, 1⟩ : LRNLayer ℝ).crossChannelForward [0])
        (LRNLayer.setBottom (fun _ _ => 1) 0 t)))
      (runCalls Real.rpow
        ((⟨3, 1, 1, 1, 1, 1, 2, 1, 1, 1⟩ : LRNLayer ℝ).crossChannelBackward [0] fun _ => 0)
        (runCalls Real.rpow
          ((⟨3, 1, 1, 1, 1, 1, 2, 1, 1, 1⟩ : LRNLayer ℝ).crossChannelForward [0])
          (fun _ _ => 1)) .bottomDiff 0) 1 :=
  LRNLayer.cross_channel_backward_derivative
    (show LRNLayer.setUp (⟨3, 1, 1, 1⟩ : LRNParameter ℝ) ⟨1, 2, 1, 1⟩ 1 =
      .ok ⟨3, 1, 1, 1, 1, 1, 2, 1, 1, 1⟩ from rfl) (by decide) (by decide) one_pos zero_le_one
    (List.Perm.refl [0]) (List.Perm.refl [0]) (fun _ => 0) (by decide) (fun _ _ => 1)
    (n := 0) (c := 0) (h := 0) (w := 0) (by decide) (by decide) (by decide) (by decide)

end Derivative

end IntelCaffe
