import IntelCaffe.Layers.LRN.Columns
import Mathlib.Algebra.BigOperators.Group.Finset
import Mathlib.Order.Interval.Finset.Nat
import Mathlib.Algebra.Field.Rat
import Mathlib.Tactic.Ring

/-! # The forward pass across channels

`CrossChannelForward_cpu` computes the scale of each channel from the one before it: it starts
channel `0` from `k` with a `caffe_set` of `limit` planes and the first `limit + 1` squares, then
copies the previous scale, adds the head of the window and subtracts its tail. On a layer of
one-element planes (`unit`, which is enough by `crossChannelForward_column`) this gives, for
every image taken once in any order, `k` plus `alpha / size` times the sum of the squares over
the window, except that when `limit` is `0` the `caffe_set` covers nothing and the scale starts
from what channel `0` held before the pass.
-/

namespace IntelCaffe

namespace LRNLayer
variable {α : Type} (layer : LRNLayer α)

def window (c : Nat) : Finset Nat :=
  Finset.Icc (c - layer.prePad) (min (layer.channels - 1) (c + layer.prePad))

theorem mem_window {c c' : Nat} (channels : 0 < layer.channels) :
    c' ∈ layer.window c ↔
      c - layer.prePad ≤ c' ∧ c' ≤ c + layer.prePad ∧ c' < layer.channels := by
  simp only [window, Finset.mem_Icc]
  omega

theorem window_eq_filter {c : Nat} (channels : 0 < layer.channels) :
    layer.window c = (Finset.range layer.channels).filter
      (fun c' => c - layer.prePad ≤ c' ∧ c' ≤ c + layer.prePad) := by
  ext c'
  simp only [mem_window layer channels, Finset.mem_filter, Finset.mem_range]
  tauto

theorem window_zero (channels : 0 < layer.channels) :
    layer.window 0 = Finset.range (layer.limit + 1) := by
  ext c'
  simp only [mem_window layer channels, Finset.mem_range, limit]
  split <;> omega

variable {β : Type} [AddCommGroup β]

theorem sum_window_succ (value : Nat → β) {c : Nat} (next : c + 1 < layer.channels) :
    ∑ c' in layer.window (c + 1), value c' =
      ∑ c' in layer.window c, value c' +
        (if c + 1 < layer.channels - layer.prePad then value (c + 1 + layer.prePad) else 0) -
        (if layer.prePad < c + 1 then value (c + 1 - layer.prePad - 1) else 0) := by
  have channels : 0 < layer.channels := by omega
  have head : (if c + 1 < layer.channels - layer.prePad then value (c + 1 + layer.prePad) else 0) =
      ∑ c' in Finset.range layer.channels, if c' = c + 1 + layer.prePad then value c' else 0 := by
    simp only [Finset.sum_ite_eq', Finset.mem_range]
    split_ifs <;> first | rfl | omega
  have tail : (if layer.prePad < c + 1 then value (c + 1 - layer.prePad - 1) else 0) =
      ∑ c' in Finset.range layer.channels,
        if c' = c + 1 - layer.prePad - 1 ∧ layer.prePad < c + 1 then value c' else 0 := by
    by_cases late : layer.prePad < c + 1
    · simp only [late, and_true, if_true, Finset.sum_ite_eq', Finset.mem_range]
      rw [if_pos (by omega)]
    · simp [late]
  simp only [window_eq_filter layer channels, Finset.sum_filter, head, tail,
    ← Finset.sum_add_distrib, ← Finset.sum_sub_distrib]
  refine Finset.sum_congr rfl fun c' _ => ?_
  split_ifs <;> first | omega | simp

theorem setUp_limit_pos {param : LRNParameter α} {bottom : BlobShape} {maxThreads : Nat}
    {layer : LRNLayer α} (ok : setUp param bottom maxThreads = .ok layer)
    (channels : 2 ≤ bottom.channels) (localSize : 3 ≤ param.localSize) : 0 < layer.limit := by
  obtain ⟨-, prePad, rfl, -, size, -⟩ := setUp_ok ok
  have : 2 ≤ layer.channels := channels
  rw [limit]
  split <;> omega

variable [Field α]

theorem forwardChannel_exec (pow : α → α → α) (memory : Memory LRNBuffer α) (n c : Nat)
    (buffer : LRNBuffer) (index : Nat) :
    runCalls pow (layer.unit.forwardChannel n c) memory buffer index =
      if buffer = .scaleData ∧ index = n * layer.channels + c then
        memory .scaleData (n * layer.channels + (c - 1)) + layer.alphaOverSize *
          ((if c < layer.channels - layer.prePad then
              memory .topData (n * layer.channels + (c + layer.prePad)) else 0) -
            (if layer.prePad < c then
              memory .topData (n * layer.channels + (c - layer.prePad - 1)) else 0))
      else memory buffer index := by
  rw [forwardChannel]
  simp only [unit_channels, unit_prePad, unit_height, unit_width, unit_alphaOverSize, Nat.mul_one,
    gt_iff_lt]
  by_cases target : buffer = .scaleData ∧ index = n * layer.channels + c
  · obtain ⟨rfl, rfl⟩ := target
    rw [if_pos (show LRNBuffer.scaleData = .scaleData ∧
      n * layer.channels + c = n * layer.channels + c from ⟨rfl, rfl⟩)]
    split_ifs <;>
      simp only [List.singleton_append, List.nil_append, List.append_nil, List.cons_append,
        runCalls_cons, runCalls_nil, MathCall.exec_one, MathCall.count, MathCall.output,
        MathCall.value, Memory.read, unit_scaleAt, unit_topAt, and_self, if_true, reduceCtorEq,
        false_and, if_false, Nat.add_zero] <;>
      ring
  · rw [if_neg target]
    split_ifs <;>
      simp only [List.singleton_append, List.nil_append, List.append_nil, List.cons_append,
        runCalls_cons, runCalls_nil, MathCall.exec_one, MathCall.count, MathCall.output,
        unit_scaleAt, unit_topAt, Nat.add_zero, if_neg target]

theorem headAxpys_exec (pow : α → α → α) (memory : Memory LRNBuffer α) (n j : Nat)
    (buffer : LRNBuffer) (index : Nat) :
    runCalls pow ((List.range j).map fun c =>
        MathCall.axpy 1 layer.alphaOverSize ⟨.topData, n * layer.channels + c⟩
          ⟨.scaleData, n * layer.channels⟩) memory buffer index =
      if buffer = .scaleData ∧ index = n * layer.channels then
        memory .scaleData (n * layer.channels) +
          layer.alphaOverSize * ∑ c in Finset.range j, memory .topData (n * layer.channels + c)
      else memory buffer index := by
  induction j generalizing buffer index with
  | zero => split_ifs with target <;> simp [target]
  | succ j induction =>
    rw [List.range_succ, List.map_append, runCalls_append, List.map_singleton, runCalls_cons,
      runCalls_nil]
    simp only [MathCall.exec_one, MathCall.count, MathCall.output, MathCall.value, Memory.read,
      induction, Finset.sum_range_succ, Nat.add_zero, true_and, and_self, if_true, reduceCtorEq,
      false_and, if_false]
    by_cases target : buffer = .scaleData ∧ index = n * layer.channels
    · rw [if_pos target, if_pos target]
      ring
    · rw [if_neg target, if_neg target, if_neg target]

theorem forwardChannels_other (pow : α → α → α) (memory : Memory LRNBuffer α) (n j : Nat)
    {buffer : LRNBuffer} (other : buffer ≠ .scaleData) (index : Nat) :
    runCalls pow ((List.range' 1 j).flatMap (layer.unit.forwardChannel n)) memory buffer index =
      memory buffer index := by
  induction j with
  | zero => rfl
  | succ j induction =>
    rw [List.range'_1_concat, List.flatMap_append, runCalls_append, List.flatMap_singleton,
      forwardChannel_exec, if_neg (fun target => other target.1), induction]

theorem forwardChannels_scale (pow : α → α → α) (memory : Memory LRNBuffer α) (n : Nat) {j : Nat}
    (last : j < layer.channels) {c : Nat} :
    runCalls pow ((List.range' 1 j).flatMap (layer.unit.forwardChannel n)) memory .scaleData
        (n * layer.channels + c) =
      if c ≤ j then memory .scaleData (n * layer.channels) + layer.alphaOverSize *
          (∑ c' in layer.window c, memory .topData (n * layer.channels + c') -
            ∑ c' in layer.window 0, memory .topData (n * layer.channels + c'))
      else memory .scaleData (n * layer.channels + c) := by
  induction j generalizing c with
  | zero =>
    split_ifs with first
    · obtain rfl : c = 0 := by omega
      simp
    · rfl
  | succ j induction =>
    rw [List.range'_1_concat, List.flatMap_append, runCalls_append, List.flatMap_singleton,
      forwardChannel_exec]
    simp only [forwardChannels_other layer pow memory n j (show LRNBuffer.topData ≠ .scaleData
      by decide), true_and, Nat.add_left_cancel_iff]
    by_cases target : c = 1 + j
    · subst target
      rw [if_pos rfl, show 1 + j - 1 = j by omega, induction (by omega), Nat.add_comm 1 j,
        sum_window_succ layer _ last]
      simp only [le_refl, if_true]
      ring
    · rw [if_neg target, induction (by omega)]
      split_ifs <;> first | rfl | omega

def forwardScale (memory : Memory LRNBuffer α) (n c : Nat) : α :=
  (if 0 < layer.limit then layer.k else memory .scaleData (n * layer.channels)) +
    layer.alphaOverSize * ∑ c' in layer.window c, memory .topData (n * layer.channels + c')

theorem forwardImage_scale (pow : α → α → α) (memory : Memory LRNBuffer α) (n : Nat) {c : Nat}
    (channel : c < layer.channels) :
    runCalls pow (layer.unit.forwardImage n) memory .scaleData (n * layer.channels + c) =
      layer.forwardScale memory n c := by
  have channels : 0 < layer.channels := by omega
  rw [forwardImage]
  simp only [unit_height, unit_width, Nat.mul_one, unit_limit, unit_k, unit_alphaOverSize,
    unit_scaleAt, unit_topAt, unit_channels, runCalls_append, runCalls_cons, runCalls_nil,
    Nat.add_zero]
  rw [forwardChannels_scale layer pow _ n (show layer.channels - 1 < layer.channels by omega),
    if_pos (by omega)]
  simp only [forwardChannels_other layer pow _ n _ (show LRNBuffer.topData ≠ .scaleData by decide),
    headAxpys_exec, true_and, if_true, MathCall.exec, Memory.write, MathCall.output,
    MathCall.count, MathCall.value, forwardScale, ← window_zero layer channels]
  simp
  ring

theorem forwardImage_other (pow : α → α → α) (memory : Memory LRNBuffer α) (n : Nat)
    {buffer : LRNBuffer} (other : buffer ≠ .scaleData) (index : Nat) :
    runCalls pow (layer.unit.forwardImage n) memory buffer index = memory buffer index := by
  refine runCalls_of_not_writes pow (fun call member writes => other ?_) memory
  rw [writes.1]
  simp only [forwardImage, List.mem_append, List.mem_singleton, List.mem_map, List.mem_flatMap,
    forwardChannel, List.mem_ite_nil_right] at member
  obtain (rfl | ⟨c, -, rfl⟩) | ⟨c, -, (rfl | ⟨-, rfl⟩) | ⟨-, rfl⟩⟩ := member <;> rfl

theorem forwardImage_apart (pow : α → α → α) (memory : Memory LRNBuffer α) {n n' c : Nat}
    (images : n ≠ n') (channel : c < layer.channels) :
    runCalls pow (layer.unit.forwardImage n') memory .scaleData (n * layer.channels + c) =
      memory .scaleData (n * layer.channels + c) := by
  refine layer.unit.runCalls_of_owned
    (layer.unit.forwardImage_owned n' (by rw [unit_channels]; omega)) pow memory images ?_
  simp only [ownedBlock, unit_channels, unit_height, unit_width, Nat.mul_one, Nat.add_mul,
    Nat.one_mul]
  omega

theorem forwardImages_other (pow : α → α → α) (memory : Memory LRNBuffer α) (order : List Nat)
    {buffer : LRNBuffer} (other : buffer ≠ .scaleData) (index : Nat) :
    runCalls pow (order.flatMap layer.unit.forwardImage) memory buffer index =
      memory buffer index := by
  induction order generalizing memory with
  | nil => rfl
  | cons n rest induction =>
    rw [List.flatMap_cons, runCalls_append, induction, forwardImage_other layer pow memory n other]

theorem forwardImages_apart (pow : α → α → α) (memory : Memory LRNBuffer α) {order : List Nat}
    {n c : Nat} (absent : n ∉ order) (channel : c < layer.channels) :
    runCalls pow (order.flatMap layer.unit.forwardImage) memory .scaleData
        (n * layer.channels + c) = memory .scaleData (n * layer.channels + c) := by
  induction order generalizing memory with
  | nil => rfl
  | cons n' rest induction =>
    rw [List.mem_cons, not_or] at absent
    rw [List.flatMap_cons, runCalls_append, induction _ absent.2,
      forwardImage_apart layer pow memory absent.1 channel]

theorem forwardScale_congr {memory memory' : Memory LRNBuffer α} {n : Nat}
    (top : ∀ index, memory' .topData index = memory .topData index)
    (base : memory' .scaleData (n * layer.channels) = memory .scaleData (n * layer.channels))
    (c : Nat) : layer.forwardScale memory' n c = layer.forwardScale memory n c := by
  simp only [forwardScale, top, base]

theorem forwardImages_scale (pow : α → α → α) (memory : Memory LRNBuffer α) {order : List Nat}
    (distinct : order.Nodup) {n c : Nat} (image : n ∈ order) (channel : c < layer.channels) :
    runCalls pow (order.flatMap layer.unit.forwardImage) memory .scaleData
        (n * layer.channels + c) = layer.forwardScale memory n c := by
  induction order generalizing memory with
  | nil => cases image
  | cons n' rest induction =>
    rw [List.nodup_cons] at distinct
    rw [List.flatMap_cons, runCalls_append]
    by_cases first : n = n'
    · subst first
      rw [forwardImages_apart layer pow _ distinct.1 channel,
        forwardImage_scale layer pow _ _ channel]
    · rw [induction _ distinct.2 ((List.mem_cons.mp image).resolve_left first)]
      refine layer.forwardScale_congr
        (fun index => forwardImage_other layer pow memory n' (by decide) index) ?_ c
      simpa using forwardImage_apart layer pow memory first (show 0 < layer.channels by omega)

theorem crossChannelForward_unit_scale (pow : α → α → α) {order : List Nat}
    (schedule : order.Perm (List.range layer.num)) (memory : Memory LRNBuffer α) {n c : Nat}
    (image : n < layer.num) (channel : c < layer.channels) :
    runCalls pow (layer.unit.crossChannelForward order) memory .scaleData
        (n * layer.channels + c) =
      (if 0 < layer.limit then layer.k else memory .scaleData (n * layer.channels)) +
        layer.alphaOverSize *
          ∑ c' in layer.window c, memory .bottomData (n * layer.channels + c') ^ 2 := by
  have channels : 0 < layer.channels := by omega
  simp only [crossChannelForward, runCalls_append, runCalls_cons, runCalls_nil]
  rw [MathCall.exec_of_not_writes pow (fun writes => by cases writes.1),
    MathCall.exec_of_not_writes pow (fun writes => by cases writes.1),
    forwardImages_scale layer pow _ (schedule.nodup_iff.mpr (List.nodup_range _))
      (schedule.mem_iff.mpr (List.mem_range.mpr image)) channel, forwardScale]
  congr 1
  refine congrArg _ (Finset.sum_congr rfl fun c' member => ?_)
  have := layer.image_plane_lt image ((layer.mem_window channels).mp member).2.2
  simp [MathCall.exec, Memory.write, MathCall.output, MathCall.count, MathCall.value,
    Memory.read, this, sq]

theorem crossChannelForward_unit_top (pow : α → α → α) (order : List Nat)
    (memory : Memory LRNBuffer α) {n c : Nat} (image : n < layer.num)
    (channel : c < layer.channels) :
    runCalls pow (layer.unit.crossChannelForward order) memory .topData (n * layer.channels + c) =
      pow (runCalls pow (layer.unit.crossChannelForward order) memory .scaleData
        (n * layer.channels + c)) (-layer.beta) * memory .bottomData (n * layer.channels + c) := by
  have := layer.image_plane_lt image channel
  simp only [crossChannelForward, runCalls_append, runCalls_cons, runCalls_nil]
  simp [MathCall.exec, Memory.write, MathCall.output, MathCall.count, MathCall.value,
    Memory.read, scaleShape, BlobShape.count, this,
    forwardImages_other layer pow _ order (show LRNBuffer.bottomData ≠ .scaleData by decide)]

theorem crossChannelForward_scale (pow : α → α → α) {order : List Nat}
    (schedule : order.Perm (List.range layer.num)) (memory : Memory LRNBuffer α) {n c h w : Nat}
    (image : n < layer.num) (channel : c < layer.channels) (row : h < layer.height)
    (col : w < layer.width) :
    runCalls pow (layer.crossChannelForward order) memory .scaleData
        (layer.scaleShape.offset n c h w) =
      (if 0 < layer.limit then layer.k else memory .scaleData (layer.scaleShape.offset n 0 h w)) +
        layer.alphaOverSize *
          ∑ c' in layer.window c, memory .bottomData (layer.scaleShape.offset n c' h w) ^ 2 := by
  have within : h * layer.width + w < layer.height * layer.width :=
    layer.scaleShape.pixel_lt row col
  rw [← column_offset layer (runCalls pow _ memory), crossChannelForward_column layer pow order
    memory within, crossChannelForward_unit_scale layer pow schedule _ image channel,
    column_offset_zero]
  simp only [column_offset]

theorem crossChannelForward_top (pow : α → α → α) (order : List Nat)
    (memory : Memory LRNBuffer α) {n c h w : Nat} (image : n < layer.num)
    (channel : c < layer.channels) (row : h < layer.height) (col : w < layer.width) :
    runCalls pow (layer.crossChannelForward order) memory .topData
        (layer.scaleShape.offset n c h w) =
      pow (runCalls pow (layer.crossChannelForward order) memory .scaleData
        (layer.scaleShape.offset n c h w)) (-layer.beta) *
        memory .bottomData (layer.scaleShape.offset n c h w) := by
  have within : h * layer.width + w < layer.height * layer.width :=
    layer.scaleShape.pixel_lt row col
  rw [← column_offset layer (runCalls pow _ memory) .topData,
    ← column_offset layer (runCalls pow _ memory) .scaleData, ← column_offset layer memory,
    crossChannelForward_column layer pow order memory within,
    crossChannelForward_unit_top layer pow order _ image channel]

theorem crossChannelForward_output {order : List Nat} {call : MathCall LRNBuffer α}
    (member : call ∈ layer.crossChannelForward order) :
    call.output.buffer = .topData ∨ call.output.buffer = .scaleData := by
  simp only [crossChannelForward, forwardImage, forwardChannel, List.mem_append, List.mem_cons,
    List.mem_singleton, List.mem_map, List.mem_flatMap, List.mem_ite_nil_right,
    List.not_mem_nil, or_false] at member
  obtain (rfl | ⟨n, -, (rfl | ⟨c, -, rfl⟩) | ⟨c, -, (rfl | ⟨-, rfl⟩) | ⟨-, rfl⟩⟩⟩) | rfl | rfl :=
    member <;> simp [MathCall.output, scaleAt, topAt]

theorem crossChannelForward_other (pow : α → α → α) (order : List Nat)
    (memory : Memory LRNBuffer α) (buffer : LRNBuffer) (top : buffer ≠ .topData)
    (scale : buffer ≠ .scaleData) (index : Nat) :
    runCalls pow (layer.crossChannelForward order) memory buffer index = memory buffer index :=
  runCalls_of_not_writes pow (fun _ member writes =>
    (layer.crossChannelForward_output member).elim (fun output => top (writes.1.trans output))
      (fun output => scale (writes.1.trans output))) memory

theorem cross_channel_forward_normalizes {param : LRNParameter α} {bottom : BlobShape}
    {maxThreads : Nat} {layer : LRNLayer α} (ok : setUp param bottom maxThreads = .ok layer)
    (channels : 2 ≤ bottom.channels) (localSize : 3 ≤ param.localSize) (pow : α → α → α)
    {order : List Nat} (schedule : order.Perm (List.range bottom.num))
    (memory : Memory LRNBuffer α) {n c h w : Nat} (image : n < bottom.num)
    (channel : c < bottom.channels) (row : h < bottom.height) (col : w < bottom.width) :
    let scale := param.k + param.alpha / param.localSize *
      ∑ c' in layer.window c, memory .bottomData (bottom.offset n c' h w) ^ 2
    runCalls pow (layer.crossChannelForward order) memory .scaleData (bottom.offset n c h w) =
        scale ∧
      runCalls pow (layer.crossChannelForward order) memory .topData (bottom.offset n c h w) =
        pow scale (-param.beta) * memory .bottomData (bottom.offset n c h w) := by
  have positive := setUp_limit_pos ok channels localSize
  obtain ⟨-, -, rfl, -, size, alpha, beta, k⟩ := setUp_ok ok
  have scale := crossChannelForward_scale layer pow schedule memory image channel row col
  rw [if_pos positive, k, alphaOverSize, alpha, size] at scale
  exact ⟨scale, by
    rw [crossChannelForward_top layer pow order memory image channel row col, scale, beta]⟩

/- Two channels of one element, `local_size` 3 and every input `1`: the scale of channel `0` is
`1 + 1 / 3 * 2`. -/
theorem cross_channel_forward_normalizes_two_channels :
    runCalls (fun scale _ => scale)
        ((⟨3, 1, 1, 1, 1, 1, 2, 1, 1, 1⟩ : LRNLayer ℚ).crossChannelForward [0]) (fun _ _ => 1)
        .scaleData 0 = 5 / 3 ∧
      runCalls (fun scale _ => scale)
        ((⟨3, 1, 1, 1, 1, 1, 2, 1, 1, 1⟩ : LRNLayer ℚ).crossChannelForward [0]) (fun _ _ => 1)
        .topData 0 = 5 / 3 := by
  have normalizes := cross_channel_forward_normalizes
    (show setUp (⟨3, 1, 1, 1⟩ : LRNParameter ℚ) ⟨1, 2, 1, 1⟩ 1 =
      .ok ⟨3, 1, 1, 1, 1, 1, 2, 1, 1, 1⟩ from rfl) (by decide) (by decide)
    (fun scale _ => scale) (List.Perm.refl [0]) (fun _ _ => 1) (n := 0) (c := 0) (h := 0) (w := 0) (by decide)
    (by decide) (by decide) (by decide)
  norm_num [BlobShape.offset, window] at normalizes
  exact normalizes

theorem cross_channel_forward_stale_scale {param : LRNParameter α} {bottom : BlobShape}
    {maxThreads : Nat} {layer : LRNLayer α} (ok : setUp param bottom maxThreads = .ok layer)
    (degenerate : bottom.channels = 1 ∨ param.localSize = 1) (pow : α → α → α)
    {order : List Nat} (schedule : order.Perm (List.range bottom.num))
    (memory : Memory LRNBuffer α) {n c h w : Nat} (image : n < bottom.num)
    (channel : c < bottom.channels) (row : h < bottom.height) (col : w < bottom.width) :
    runCalls pow (layer.crossChannelForward order) memory .scaleData (bottom.offset n c h w) =
        memory .scaleData (bottom.offset n 0 h w) + layer.alphaOverSize *
          ∑ c' in layer.window c, memory .bottomData (bottom.offset n c' h w) ^ 2 ∧
      (runCalls pow (layer.crossChannelForward order) memory .scaleData (bottom.offset n c h w) =
          layer.k + layer.alphaOverSize *
            ∑ c' in layer.window c, memory .bottomData (bottom.offset n c' h w) ^ 2 ↔
        memory .scaleData (bottom.offset n 0 h w) = layer.k) := by
  obtain ⟨-, prePad, rfl, -, size, -⟩ := setUp_ok ok
  have noLimit : layer.limit = 0 := by
    change layer.channels = 1 ∨ param.localSize = 1 at degenerate
    unfold limit
    split <;> omega
  rw [crossChannelForward_scale layer pow schedule memory image channel row col, noLimit,
    if_neg (Nat.lt_irrefl 0)]
  exact ⟨rfl, add_left_inj _⟩

/- One image of one channel and `local_size` 1, with `k = 1`, a zero input and a zero
`scale_`: the pass leaves a scale of `0` where `k + alpha / size * x ^ 2` is `1`. -/
theorem cross_channel_forward_stale_scale_one_channel :
    runCalls (fun scale _ => scale)
        ((⟨1, 0, 1, 1, 1, 1, 1, 1, 1, 1⟩ : LRNLayer ℚ).crossChannelForward [0]) (fun _ _ => 0)
        .scaleData 0 = 0 ∧
      runCalls (fun scale _ => scale)
        ((⟨1, 0, 1, 1, 1, 1, 1, 1, 1, 1⟩ : LRNLayer ℚ).crossChannelForward [0]) (fun _ _ => 0)
        .scaleData 0 ≠ 1 := by
  have stale := cross_channel_forward_stale_scale
    (show setUp (⟨1, 1, 1, 1⟩ : LRNParameter ℚ) ⟨1, 1, 1, 1⟩ 1 =
      .ok ⟨1, 0, 1, 1, 1, 1, 1, 1, 1, 1⟩ from rfl) (Or.inl rfl) (fun scale _ => scale)
    (List.Perm.refl [0]) (fun _ _ => 0) Nat.zero_lt_one Nat.zero_lt_one Nat.zero_lt_one
    Nat.zero_lt_one
  have zero : runCalls (fun scale _ => scale)
      ((⟨1, 0, 1, 1, 1, 1, 1, 1, 1, 1⟩ : LRNLayer ℚ).crossChannelForward [0]) (fun _ _ => 0)
      .scaleData 0 = 0 := by
    simpa [BlobShape.offset] using stale.1
  exact ⟨zero, by rw [zero]; exact zero_ne_one⟩

end LRNLayer

end IntelCaffe
