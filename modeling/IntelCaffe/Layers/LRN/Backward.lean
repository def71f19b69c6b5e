import IntelCaffe.Layers.LRN.Forward
import Mathlib.Algebra.BigOperators.Intervals

/-! # `CrossChannelBackward_cpu`

Each image writes its ratios `top_diff * top_data / scale` into a slot of `padded_ratio_`, from
plane `inverse_pre_pad` on, and runs a window of `size` planes down the slot in
`accum_ratio_`. Slots are shared between images, so the pass is right only if the padding
planes of every slot stay zero from the `caffe_set` before the loop through every reuse
(`backwardImage_paddingClear`), and only if `inverse_pre_pad` puts the ratio of channel `c'`
inside the window of exactly the channels whose forward window holds `c'` (`sum_Ico_padded`).
-/

namespace IntelCaffe

namespace LRNLayer

variable {α : Type} (layer : LRNLayer α)

theorem sum_Ico_add_top {β : Type} [AddCommMonoid β] (value : Nat → β) {size : Nat}
    (positive : 0 < size) (j : Nat) :
    ∑ i in Finset.Ico j (j + size - 1), value i + value (j + size - 1) =
      ∑ i in Finset.Ico j (j + size), value i := by
  rw [← Finset.sum_Ico_succ_top (by omega), show j + size - 1 + 1 = j + size by omega]

theorem sum_Ico_sub_bottom {β : Type} [AddCommGroup β] (value : Nat → β) {size : Nat}
    (positive : 0 < size) (j : Nat) :
    ∑ i in Finset.Ico j (j + size), value i - value j =
      ∑ i in Finset.Ico (j + 1) (j + 1 + size - 1), value i := by
  rw [Finset.sum_eq_sum_Ico_succ_bot (by omega), show j + 1 + size - 1 = j + size by omega,
    add_sub_cancel_left]

theorem sum_Ico_padded {β : Type} [AddCommMonoid β] (ratio : Nat → β)
    (channels : 0 < layer.channels) (odd : layer.size % 2 = 1)
    (prePad : layer.prePad = (layer.size - 1) / 2) (c : Nat) :
    ∑ i in Finset.Ico c (c + layer.size),
        (if layer.prePad ≤ i ∧ i < layer.prePad + layer.channels then ratio (i - layer.prePad)
        else 0) =
      ∑ c' in layer.window c, ratio c' := by
  rw [← Finset.sum_filter]
  refine Finset.sum_nbij' (· - layer.prePad) (· + layer.prePad) ?_ ?_ ?_ ?_ (fun _ _ => rfl) <;>
    intro i member <;>
    simp only [Finset.mem_filter, Finset.mem_Ico, mem_window layer channels] at member ⊢ <;>
    omega

theorem slot_index_inj {size tid tid' i i' : Nat} (within : i < size) (within' : i' < size)
    (same : tid * size + i = tid' * size + i') : tid = tid' ∧ i = i' := by
  by_cases slots : tid = tid'
  · subst slots
    omega
  · have first : tid * size ≤ tid * size + i ∧ tid * size + i < (tid + 1) * size :=
      ⟨Nat.le_add_right _ _, by rw [Nat.add_mul, Nat.one_mul]; omega⟩
    have second : tid' * size ≤ tid * size + i ∧ tid * size + i < (tid' + 1) * size :=
      ⟨by omega, by rw [Nat.add_mul, Nat.one_mul]; omega⟩
    exact absurd second (blocks_apart slots first)

def BackwardInput (buffer : LRNBuffer) : Prop :=
  buffer = .topDiff ∨ buffer = .topData ∨ buffer = .scaleData ∨ buffer = .bottomData


variable [Field α]

theorem backwardChannel_accum (pow : α → α → α) (memory : Memory LRNBuffer α) (n tid c : Nat) :
    runCalls pow (layer.unit.backwardChannel n tid c) memory .accumRatioData tid =
      memory .accumRatioData tid +
          memory .paddedRatioData (tid * (layer.channels + layer.size - 1) + (c + layer.size - 1)) -
        memory .paddedRatioData (tid * (layer.channels + layer.size - 1) + c) := by
  simp [backwardChannel, MathCall.exec_one, MathCall.count, MathCall.output, MathCall.value,
    Memory.read]

theorem backwardChannel_bottomDiff (pow : α → α → α) (memory : Memory LRNBuffer α)
    (n tid c c' : Nat) :
    runCalls pow (layer.unit.backwardChannel n tid c) memory .bottomDiff (n * layer.channels + c') =
      if c' = c then
        -layer.cacheRatioValue * (memory .bottomData (n * layer.channels + c) *
          (memory .accumRatioData tid + memory .paddedRatioData
            (tid * (layer.channels + layer.size - 1) + (c + layer.size - 1)))) +
          memory .bottomDiff (n * layer.channels + c)
      else memory .bottomDiff (n * layer.channels + c') := by
  by_cases same : c' = c
  · subst same
    simp [backwardChannel, MathCall.exec_one, MathCall.count, MathCall.output, MathCall.value,
      Memory.read]
  · simp [backwardChannel, MathCall.exec_one, MathCall.count, MathCall.output, MathCall.value,
      Memory.read, same]

theorem backwardChannel_other (pow : α → α → α) (memory : Memory LRNBuffer α) (n tid c : Nat)
    {buffer : LRNBuffer} (other : buffer ≠ .accumRatioData ∧ buffer ≠ .accumRatioTimesBottom ∧
      buffer ≠ .bottomDiff) (index : Nat) :
    runCalls pow (layer.unit.backwardChannel n tid c) memory buffer index =
      memory buffer index := by
  simp [backwardChannel, MathCall.exec_one, MathCall.count, MathCall.output, other]

theorem backwardChannels_other (pow : α → α → α) (memory : Memory LRNBuffer α) (n tid j : Nat)
    {buffer : LRNBuffer} (other : buffer ≠ .accumRatioData ∧ buffer ≠ .accumRatioTimesBottom ∧
      buffer ≠ .bottomDiff) (index : Nat) :
    runCalls pow ((List.range j).flatMap (layer.unit.backwardChannel n tid)) memory buffer index =
      memory buffer index := by
  induction j with
  | zero => rfl
  | succ j induction =>
    rw [List.range_succ, List.flatMap_append, runCalls_append, List.flatMap_singleton,
      backwardChannel_other layer pow _ n tid j other, induction]

theorem backwardChannels_accum (pow : α → α → α) (memory : Memory LRNBuffer α) (n tid : Nat)
    (positive : 0 < layer.size)
    (start : memory .accumRatioData tid = ∑ i in Finset.Ico 0 (layer.size - 1),
      memory .paddedRatioData (tid * (layer.channels + layer.size - 1) + i)) (j : Nat) :
    runCalls pow ((List.range j).flatMap (layer.unit.backwardChannel n tid)) memory
        .accumRatioData tid =
      ∑ i in Finset.Ico j (j + layer.size - 1),
        memory .paddedRatioData (tid * (layer.channels + layer.size - 1) + i) := by
  induction j with
  | zero => simpa using start
  | succ j induction =>
    rw [List.range_succ, List.flatMap_append, runCalls_append, List.flatMap_singleton,
      backwardChannel_accum, induction,
      backwardChannels_other layer pow _ n tid j ⟨by decide, by decide, by decide⟩,
      backwardChannels_other layer pow _ n tid j ⟨by decide, by decide, by decide⟩,
      sum_Ico_add_top _ positive,
      sum_Ico_sub_bottom _ positive]

theorem backwardChannels_bottomDiff (pow : α → α → α) (memory : Memory LRNBuffer α) (n tid : Nat)
    (positive : 0 < layer.size)
    (start : memory .accumRatioData tid = ∑ i in Finset.Ico 0 (layer.size - 1),
      memory .paddedRatioData (tid * (layer.channels + layer.size - 1) + i)) (j c : Nat) :
    runCalls pow ((List.range j).flatMap (layer.unit.backwardChannel n tid)) memory
        .bottomDiff (n * layer.channels + c) =
      if c < j then
        -layer.cacheRatioValue * (memory .bottomData (n * layer.channels + c) *
          ∑ i in Finset.Ico c (c + layer.size),
            memory .paddedRatioData (tid * (layer.channels + layer.size - 1) + i)) +
          memory .bottomDiff (n * layer.channels + c)
      else memory .bottomDiff (n * layer.channels + c) := by
  induction j with
  | zero => rfl
  | succ j induction =>
    rw [List.range_succ, List.flatMap_append, runCalls_append, List.flatMap_singleton,
      backwardChannel_bottomDiff]
    by_cases same : c = j
    · subst same
      rw [if_pos rfl, if_pos (Nat.lt_succ_self c), induction, if_neg (Nat.lt_irrefl c),
        backwardChannels_accum layer pow _ n tid positive start,
        backwardChannels_other layer pow _ n tid c ⟨by decide, by decide, by decide⟩,
        backwardChannels_other layer pow _ n tid c ⟨by decide, by decide, by decide⟩,
        sum_Ico_add_top _ positive]
    · rw [if_neg same, induction]
      split_ifs <;> first | rfl | omega

theorem backwardHead_exec (pow : α → α → α) (memory : Memory LRNBuffer α) (tid j : Nat)
    (buffer : LRNBuffer) (index : Nat) :
    runCalls pow ((List.range j).map fun c =>
        MathCall.add 1 ⟨.accumRatioData, tid⟩
          ⟨.paddedRatioData, tid * (layer.channels + layer.size - 1) + c⟩ ⟨.accumRatioData, tid⟩)
        memory buffer index =
      if buffer = .accumRatioData ∧ index = tid then
        memory .accumRatioData tid + ∑ c in Finset.range j,
          memory .paddedRatioData (tid * (layer.channels + layer.size - 1) + c)
      else memory buffer index := by
  induction j generalizing buffer index with
  | zero => split_ifs with target <;> simp [target]
  | succ j induction =>
    rw [List.range_succ, List.map_append, runCalls_append, List.map_singleton, runCalls_cons,
      runCalls_nil]
    simp only [MathCall.exec_one, MathCall.count, MathCall.output, MathCall.value, Memory.read,
      induction, Finset.sum_range_succ, Nat.add_zero, true_and, and_self, if_true, reduceCtorEq,
      false_and, if_false]
    by_cases target : buffer = .accumRatioData ∧ index = tid
    · rw [if_pos target, if_pos target, add_assoc]
    · rw [if_neg target, if_neg target, if_neg target]

def ratio (memory : Memory LRNBuffer α) (n c : Nat) : α :=
  memory .topDiff (n * layer.channels + c) * memory .topData (n * layer.channels + c) /
    memory .scaleData (n * layer.channels + c)

def PaddingClear (memory : Memory LRNBuffer α) (tid : Nat) : Prop :=
  ∀ i < layer.channels + layer.size - 1,
    (i < layer.inversePrePad ∨ layer.inversePrePad + layer.channels ≤ i) →
      memory .paddedRatioData (tid * (layer.channels + layer.size - 1) + i) = 0

theorem backwardRatios_exec (pow : α → α → α) (memory : Memory LRNBuffer α) (n start : Nat)
    (buffer : LRNBuffer) (index : Nat) :
    (MathCall.div layer.channels ⟨.paddedRatioData, start⟩ ⟨.scaleData, n * layer.channels⟩
        ⟨.paddedRatioData, start⟩).exec pow
      ((MathCall.mul layer.channels ⟨.topDiff, n * layer.channels⟩ ⟨.topData, n * layer.channels⟩
        ⟨.paddedRatioData, start⟩).exec pow memory) buffer index =
      if buffer = .paddedRatioData ∧ start ≤ index ∧ index < start + layer.channels then
        layer.ratio memory n (index - start)
      else memory buffer index := by
  simp only [MathCall.exec, Memory.write, MathCall.output, MathCall.count, MathCall.value,
    Memory.read, ratio]
  split_ifs with inside <;> simp_all

theorem backwardImage_bottomDiff (pow : α → α → α) (memory : Memory LRNBuffer α)
    (odd : layer.size % 2 = 1) (prePad : layer.prePad = (layer.size - 1) / 2) {n tid c : Nat}
    (clear : layer.PaddingClear memory tid) (channel : c < layer.channels) :
    runCalls pow (layer.unit.backwardImage n tid) memory .bottomDiff (n * layer.channels + c) =
      -layer.cacheRatioValue * (memory .bottomData (n * layer.channels + c) *
        ∑ c' in layer.window c, layer.ratio memory n c') +
        memory .bottomDiff (n * layer.channels + c) := by
  have positive : 0 < layer.size := by omega
  have inverse : layer.inversePrePad = layer.prePad := by unfold inversePrePad; omega
  rw [backwardImage]
  simp only [unit_height, unit_width, Nat.mul_one, unit_size, unit_channels, unit_inversePrePad,
    unit_paddedRatioAt, unit_accumRatioAt, unit_scaleShape_offset, Nat.add_zero,
    runCalls_append, runCalls_cons, runCalls_nil]
  rw [backwardChannels_bottomDiff layer pow _ n tid positive ?start layer.channels c,
    if_pos channel]
  case start =>
    simp only [backwardHead_exec, MathCall.exec_one, MathCall.count, MathCall.output,
      MathCall.value, and_self, if_true, reduceCtorEq, false_and, if_false, zero_add,
      Finset.range_eq_Ico]
  have slot : ∀ i ∈ Finset.Ico c (c + layer.size),
      (if layer.inversePrePad ≤ i ∧ i < layer.inversePrePad + layer.channels then
          layer.ratio memory n (i - layer.inversePrePad)
        else memory .paddedRatioData (tid * (layer.channels + layer.size - 1) + i)) =
      if layer.prePad ≤ i ∧ i < layer.prePad + layer.channels then
        layer.ratio memory n (i - layer.prePad) else 0 := by
    intro i member
    rw [Finset.mem_Ico] at member
    rw [inverse]
    split_ifs with inside
    · rfl
    · exact clear i (by omega) (by omega)
  simp only [backwardHead_exec, MathCall.exec_one, MathCall.count, MathCall.output,
    backwardRatios_exec]
  simp [Nat.add_sub_add_left, Nat.add_assoc, Finset.sum_congr rfl slot,
    sum_Ico_padded layer _ (by omega) odd prePad]

theorem backwardImage_output {n tid : Nat} {call : MathCall LRNBuffer α}
    (member : call ∈ layer.backwardImage n tid) : ¬ BackwardInput call.output.buffer := by
  simp only [backwardImage, backwardChannel, List.mem_append, List.mem_cons, List.mem_map,
    List.mem_flatMap, List.mem_singleton, List.not_mem_nil, or_false] at member
  obtain ((rfl | rfl | rfl) | ⟨c, -, rfl⟩) | ⟨c, -, rfl | rfl | rfl | rfl⟩ := member <;>
    simp [MathCall.output, BackwardInput, paddedRatioAt, accumRatioAt, accumRatioTimesBottomAt]

theorem backwardImage_input (pow : α → α → α) (memory : Memory LRNBuffer α) (n tid : Nat)
    {buffer : LRNBuffer} (input : BackwardInput buffer) (index : Nat) :
    runCalls pow (layer.backwardImage n tid) memory buffer index = memory buffer index :=
  runCalls_of_not_writes pow (fun _ member writes => layer.backwardImage_output member
    (writes.1 ▸ input)) memory

theorem crossChannelBackward_input (pow : α → α → α) (order : List Nat) (tid : Nat → Nat)
    (memory : Memory LRNBuffer α) {buffer : LRNBuffer} (input : BackwardInput buffer)
    (index : Nat) :
    runCalls pow (layer.crossChannelBackward order tid) memory buffer index =
      memory buffer index := by
  refine runCalls_of_not_writes pow (fun call member writes => ?_) memory
  rw [writes.1] at input
  simp only [crossChannelBackward, List.mem_append, List.mem_cons, List.mem_flatMap,
    List.not_mem_nil, or_false] at member
  obtain (rfl | rfl | rfl) | ⟨n, -, member⟩ := member
  iterate 3 simp [MathCall.output, BackwardInput] at input
  exact layer.backwardImage_output member input

theorem backwardImage_apart (pow : α → α → α) (memory : Memory LRNBuffer α)
    (odd : layer.size % 2 = 1) {n n' tid c : Nat} (images : n ≠ n')
    (channel : c < layer.channels) :
    runCalls pow (layer.unit.backwardImage n' tid) memory .bottomDiff (n * layer.channels + c) =
      memory .bottomDiff (n * layer.channels + c) := by
  refine layer.unit.runCalls_of_owned (layer.unit.backwardImage_owned odd) pow memory images ?_
  simp only [ownedBlock, unit_channels, unit_height, unit_width, Nat.mul_one, Nat.add_mul,
    Nat.one_mul]
  omega

theorem backwardImage_paddingClear (pow : α → α → α) (memory : Memory LRNBuffer α)
    (odd : layer.size % 2 = 1) (n tid tid' : Nat) (clear : layer.PaddingClear memory tid') :
    layer.PaddingClear (runCalls pow (layer.unit.backwardImage n tid) memory) tid' := by
  intro i within padding
  rw [← clear i within padding, backwardImage]
  simp only [unit_height, unit_width, Nat.mul_one, unit_size, unit_channels, unit_inversePrePad,
    unit_paddedRatioAt, unit_accumRatioAt, unit_scaleShape_offset, Nat.add_zero,
    runCalls_append, runCalls_cons, runCalls_nil]
  have outside : ¬ (tid * (layer.channels + layer.size - 1) + layer.inversePrePad ≤
      tid' * (layer.channels + layer.size - 1) + i ∧
      tid' * (layer.channels + layer.size - 1) + i <
        tid * (layer.channels + layer.size - 1) + layer.inversePrePad + layer.channels) := by
    rintro ⟨low, high⟩
    have inverse : layer.inversePrePad < layer.size := layer.inversePrePad_lt odd
    obtain ⟨k, shifted⟩ : ∃ k, tid' * (layer.channels + layer.size - 1) + i =
        tid * (layer.channels + layer.size - 1) + (layer.inversePrePad + k) :=
      ⟨_, (Nat.add_sub_of_le low).symm.trans (Nat.add_assoc _ _ _)⟩
    have := slot_index_inj within (by omega) shifted
    omega
  rw [backwardChannels_other layer pow _ n tid _ ⟨by decide, by decide, by decide⟩]
  simp [backwardHead_exec, MathCall.exec_one, MathCall.count, MathCall.output,
    backwardRatios_exec, outside]

theorem backwardImages_apart (pow : α → α → α) (memory : Memory LRNBuffer α)
    (odd : layer.size % 2 = 1) {order : List Nat} (tid : Nat → Nat) {n c : Nat}
    (absent : n ∉ order) (channel : c < layer.channels) :
    runCalls pow (order.flatMap fun n => layer.unit.backwardImage n (tid n)) memory .bottomDiff
        (n * layer.channels + c) = memory .bottomDiff (n * layer.channels + c) := by
  induction order generalizing memory with
  | nil => rfl
  | cons n' rest induction =>
    rw [List.mem_cons, not_or] at absent
    rw [List.flatMap_cons, runCalls_append, induction _ absent.2,
      backwardImage_apart layer pow memory odd absent.1 channel]

theorem ratio_congr (memory memory' : Memory LRNBuffer α)
    (input : ∀ {buffer}, BackwardInput buffer → ∀ index, memory' buffer index = memory buffer index)
    (n c : Nat) : layer.ratio memory' n c = layer.ratio memory n c := by
  simp only [ratio, input (Or.inl rfl), input (Or.inr (Or.inl rfl)),
    input (Or.inr (Or.inr (Or.inl rfl)))]

theorem backwardImages_bottomDiff (pow : α → α → α) (memory : Memory LRNBuffer α)
    (odd : layer.size % 2 = 1) (prePad : layer.prePad = (layer.size - 1) / 2) {order : List Nat}
    (distinct : order.Nodup) {tid : Nat → Nat}
    (clear : ∀ n ∈ order, layer.PaddingClear memory (tid n)) {n c : Nat} (image : n ∈ order)
    (channel : c < layer.channels) :
    runCalls pow (order.flatMap fun n => layer.unit.backwardImage n (tid n)) memory .bottomDiff
        (n * layer.channels + c) =
      -layer.cacheRatioValue * (memory .bottomData (n * layer.channels + c) *
        ∑ c' in layer.window c, layer.ratio memory n c') +
        memory .bottomDiff (n * layer.channels + c) := by
  induction order generalizing memory with
  | nil => cases image
  | cons n' rest induction =>
    rw [List.nodup_cons] at distinct
    rw [List.flatMap_cons, runCalls_append]
    by_cases first : n = n'
    · subst first
      rw [backwardImages_apart layer pow _ odd tid distinct.1 channel,
        backwardImage_bottomDiff layer pow memory odd prePad (clear n (List.mem_cons_self _ _))
          channel]
    · rw [induction _ distinct.2 (fun n'' member => backwardImage_paddingClear layer pow memory odd
          n' (tid n') (tid n'') (clear n'' (List.mem_cons_of_mem _ member)))
        ((List.mem_cons.mp image).resolve_left first),
        layer.unit.backwardImage_input pow memory n' (tid n') (Or.inr (Or.inr (Or.inr rfl))),
        backwardImage_apart layer pow memory odd first channel]
      simp only [layer.ratio_congr memory _ (layer.unit.backwardImage_input pow memory n' (tid n'))]

theorem backwardPrologue_exec (pow : α → α → α) (memory : Memory LRNBuffer α) (tid : Nat → Nat)
    (buffer : LRNBuffer) (index : Nat) :
    runCalls pow (layer.unit.crossChannelBackward [] tid) memory buffer index =
      if buffer = .paddedRatioData ∧ index < layer.numOfThreads *
          (layer.channels + layer.size - 1) then 0
      else if buffer = .bottomDiff ∧ index < layer.num * layer.channels then
        memory .topDiff index * pow (memory .scaleData index) (-layer.beta)
      else memory buffer index := by
  simp only [crossChannelBackward, List.flatMap_nil, List.append_nil, runCalls_cons, runCalls_nil]
  simp only [MathCall.exec, Memory.write, MathCall.output, MathCall.count, MathCall.value,
    Memory.read, paddedRatioShape, scaleShape, BlobShape.count, unit_numOfThreads, unit_channels,
    unit_size, unit_num, unit_height, unit_width, unit_beta, Nat.mul_one, Nat.zero_add,
    Nat.zero_le, true_and, Nat.sub_zero, reduceCtorEq, false_and, if_false]
  cases buffer <;> simp only [reduceCtorEq, false_and, if_false, true_and, if_true, and_false]
  split_ifs <;> rfl

theorem crossChannelBackward_unit_bottomDiff (pow : α → α → α) (odd : layer.size % 2 = 1)
    (prePad : layer.prePad = (layer.size - 1) / 2) {order : List Nat}
    (schedule : order.Perm (List.range layer.num)) {tid : Nat → Nat}
    (threads : ∀ n ∈ order, tid n < layer.numOfThreads) (memory : Memory LRNBuffer α) {n c : Nat}
    (image : n < layer.num) (channel : c < layer.channels) :
    runCalls pow (layer.unit.crossChannelBackward order tid) memory .bottomDiff
        (n * layer.channels + c) =
      memory .topDiff (n * layer.channels + c) *
          pow (memory .scaleData (n * layer.channels + c)) (-layer.beta) -
        layer.cacheRatioValue * memory .bottomData (n * layer.channels + c) *
          ∑ c' in layer.window c, layer.ratio memory n c' := by
  have split : layer.unit.crossChannelBackward order tid = layer.unit.crossChannelBackward [] tid ++
      order.flatMap fun n => layer.unit.backwardImage n (tid n) := by
    simp [crossChannelBackward]
  have clear : ∀ n ∈ order,
      layer.PaddingClear (runCalls pow (layer.unit.crossChannelBackward [] tid) memory) (tid n) :=
    fun n member i within _ => by
      rw [backwardPrologue_exec, if_pos ⟨rfl, by
        have := block_fits (threads n member) (show i + 1 ≤ _ from within); omega⟩]
  rw [split, runCalls_append, backwardImages_bottomDiff layer pow _ odd prePad
      (schedule.nodup_iff.mpr (List.nodup_range _)) clear
      (schedule.mem_iff.mpr (List.mem_range.mpr image)) channel,
    layer.unit.crossChannelBackward_input pow [] tid memory (Or.inr (Or.inr (Or.inr rfl))),
    backwardPrologue_exec,
    if_neg (fun target => nomatch target.1), if_pos ⟨rfl, layer.image_plane_lt image channel⟩]
  simp only [layer.ratio_congr memory _ (layer.unit.crossChannelBackward_input pow [] tid memory)]
  ring

theorem crossChannelBackward_bottomDiff (pow : α → α → α) (odd : layer.size % 2 = 1)
    (prePad : layer.prePad = (layer.size - 1) / 2) {order : List Nat}
    (schedule : order.Perm (List.range layer.num)) {tid : Nat → Nat}
    (threads : ∀ n ∈ order, tid n < layer.numOfThreads) (memory : Memory LRNBuffer α)
    {n c h w : Nat} (image : n < layer.num) (channel : c < layer.channels)
    (row : h < layer.height) (col : w < layer.width) :
    runCalls pow (layer.crossChannelBackward order tid) memory .bottomDiff
        (layer.scaleShape.offset n c h w) =
      memory .topDiff (layer.scaleShape.offset n c h w) *
          pow (memory .scaleData (layer.scaleShape.offset n c h w)) (-layer.beta) -
        layer.cacheRatioValue * memory .bottomData (layer.scaleShape.offset n c h w) *
          ∑ c' in layer.window c, memory .topDiff (layer.scaleShape.offset n c' h w) *
            memory .topData (layer.scaleShape.offset n c' h w) /
              memory .scaleData (layer.scaleShape.offset n c' h w) := by
  have within : h * layer.width + w < layer.height * layer.width :=
    layer.scaleShape.pixel_lt row col
  rw [← column_offset layer (runCalls pow _ memory), crossChannelBackward_column layer pow order
    tid memory within, crossChannelBackward_unit_bottomDiff layer pow odd prePad schedule threads _
    image channel]
  simp only [ratio, column_offset]

theorem cross_channel_backward_gradient {param : LRNParameter α} {bottom : BlobShape}
    {maxThreads : Nat} {layer : LRNLayer α} (ok : setUp param bottom maxThreads = .ok layer)
    (pow : α → α → α) {order : List Nat} (schedule : order.Perm (List.range bottom.num))
    (tid : Nat → Nat) (threads : ∀ n ∈ order, tid n < layer.numOfThreads)
    (memory : Memory LRNBuffer α) {n c h w : Nat} (image : n < bottom.num)
    (channel : c < bottom.channels) (row : h < bottom.height) (col : w < bottom.width) :
    runCalls pow (layer.crossChannelBackward order tid) memory .bottomDiff (bottom.offset n c h w) =
      memory .topDiff (bottom.offset n c h w) *
          pow (memory .scaleData (bottom.offset n c h w)) (-layer.beta) -
        layer.cacheRatioValue * memory .bottomData (bottom.offset n c h w) *
          ∑ c' in layer.window c, memory .topDiff (bottom.offset n c' h w) *
            memory .topData (bottom.offset n c' h w) /
              memory .scaleData (bottom.offset n c' h w) := by
  obtain ⟨odd, prePad, rfl, -⟩ := setUp_ok ok
  exact crossChannelBackward_bottomDiff layer pow odd prePad schedule threads memory image channel
    row col

/- Two images of three channels sharing one slot, taken last image first, with every input
`1` and `pow` the identity: the middle channel of the second image gets
`1 - 2 / 3 * 3 = -1`. -/
theorem cross_channel_backward_gradient_shared_slot :
    runCalls (fun scale _ => scale)
        ((⟨3, 1, 1, 1, 1, 2, 3, 1, 1, 1⟩ : LRNLayer ℚ).crossChannelBackward [1, 0] fun _ => 0)
        (fun _ _ => 1) .bottomDiff 4 = -1 := by
  have gradient := cross_channel_backward_gradient
    (show setUp (⟨3, 1, 1, 1⟩ : LRNParameter ℚ) ⟨2, 3, 1, 1⟩ 1 =
      .ok ⟨3, 1, 1, 1, 1, 2, 3, 1, 1, 1⟩ from rfl) (fun scale _ => scale)
    (List.Perm.swap 0 1 []) (fun _ => 0) (by decide) (fun _ _ => 1)
    (n := 1) (c := 1) (h := 0) (w := 0) (by decide) (by decide) (by decide) (by decide)
  norm_num [BlobShape.offset, window, cacheRatioValue] at gradient
  exact gradient

theorem cross_channel_schedule_independent {param : LRNParameter α} {bottom : BlobShape}
    {maxThreads : Nat} {layer : LRNLayer α} (ok : setUp param bottom maxThreads = .ok layer)
    (pow : α → α → α) {order order' : List Nat} (schedule : order.Perm (List.range bottom.num))
    (schedule' : order'.Perm (List.range bottom.num)) {tid tid' : Nat → Nat}
    (threads : ∀ n ∈ order, tid n < layer.numOfThreads)
    (threads' : ∀ n ∈ order', tid' n < layer.numOfThreads) (memory : Memory LRNBuffer α)
    {n c h w : Nat} (image : n < bottom.num) (channel : c < bottom.channels)
    (row : h < bottom.height) (col : w < bottom.width) :
    runCalls pow (layer.crossChannelForward order) memory .scaleData (bottom.offset n c h w) =
        runCalls pow (layer.crossChannelForward order') memory .scaleData
          (bottom.offset n c h w) ∧
      runCalls pow (layer.crossChannelForward order) memory .topData (bottom.offset n c h w) =
        runCalls pow (layer.crossChannelForward order') memory .topData
          (bottom.offset n c h w) ∧
      runCalls pow (layer.crossChannelBackward order tid) memory .bottomDiff
          (bottom.offset n c h w) =
        runCalls pow (layer.crossChannelBackward order' tid') memory .bottomDiff
          (bottom.offset n c h w) := by
  obtain ⟨odd, prePad, rfl, -⟩ := setUp_ok ok
  have scale : runCalls pow (layer.crossChannelForward order) memory .scaleData
      (layer.scaleShape.offset n c h w) = runCalls pow (layer.crossChannelForward order') memory
        .scaleData (layer.scaleShape.offset n c h w) := by
    rw [crossChannelForward_scale layer pow schedule memory image channel row col,
      crossChannelForward_scale layer pow schedule' memory image channel row col]
  refine ⟨scale, ?_, ?_⟩
  · rw [crossChannelForward_top layer pow order memory image channel row col,
      crossChannelForward_top layer pow order' memory image channel row col, scale]
  · rw [crossChannelBackward_bottomDiff layer pow odd prePad schedule threads memory image channel
      row col, crossChannelBackward_bottomDiff layer pow odd prePad schedule' threads' memory image
      channel row col]

theorem cross_channel_passes_forget_scratch {param : LRNParameter α} {bottom : BlobShape}
    {maxThreads : Nat} {layer : LRNLayer α} (ok : setUp param bottom maxThreads = .ok layer)
    (channels : 2 ≤ bottom.channels) (localSize : 3 ≤ param.localSize) (pow : α → α → α)
    {order order' : List Nat} (schedule : order.Perm (List.range bottom.num))
    (schedule' : order'.Perm (List.range bottom.num)) {tid : Nat → Nat}
    (threads : ∀ n ∈ order', tid n < layer.numOfThreads) (memory memory' : Memory LRNBuffer α)
    (sameBottom : ∀ i, memory .bottomData i = memory' .bottomData i)
    (sameDiff : ∀ i, memory .topDiff i = memory' .topDiff i) {n c h w : Nat}
    (image : n < bottom.num) (channel : c < bottom.channels) (row : h < bottom.height)
    (col : w < bottom.width) :
    runCalls pow (layer.crossChannelForward order) memory .topData (bottom.offset n c h w) =
        runCalls pow (layer.crossChannelForward order) memory' .topData
          (bottom.offset n c h w) ∧
      runCalls pow (layer.crossChannelBackward order' tid)
          (runCalls pow (layer.crossChannelForward order) memory) .bottomDiff
          (bottom.offset n c h w) =
        runCalls pow (layer.crossChannelBackward order' tid)
          (runCalls pow (layer.crossChannelForward order) memory') .bottomDiff
          (bottom.offset n c h w) := by
  have positive := setUp_limit_pos ok channels localSize
  obtain ⟨odd, prePad, rfl, -⟩ := setUp_ok ok
  have scale : ∀ c' < layer.channels,
      runCalls pow (layer.crossChannelForward order) memory .scaleData
        (layer.scaleShape.offset n c' h w) =
      runCalls pow (layer.crossChannelForward order) memory' .scaleData
        (layer.scaleShape.offset n c' h w) := fun c' channel' => by
    rw [crossChannelForward_scale layer pow schedule memory image channel' row col,
      crossChannelForward_scale layer pow schedule memory' image channel' row col,
      if_pos positive, if_pos positive]
    simp only [sameBottom]
  have top : ∀ c' < layer.channels,
      runCalls pow (layer.crossChannelForward order) memory .topData
        (layer.scaleShape.offset n c' h w) =
      runCalls pow (layer.crossChannelForward order) memory' .topData
        (layer.scaleShape.offset n c' h w) := fun c' channel' => by
    rw [crossChannelForward_top layer pow order memory image channel' row col,
      crossChannelForward_top layer pow order memory' image channel' row col,
      scale c' channel', sameBottom]
  have forward := fun memory => layer.crossChannelForward_other pow order memory
  refine ⟨top c channel, ?_⟩
  rw [crossChannelBackward_bottomDiff layer pow odd prePad schedule' threads _ image channel row
    col, crossChannelBackward_bottomDiff layer pow odd prePad schedule' threads _ image channel
    row col]
  simp only [forward _ .topDiff (by decide) (by decide),
    forward _ .bottomData (by decide) (by decide), sameBottom, sameDiff, scale c channel]
  refine congrArg _ (congrArg _ (Finset.sum_congr rfl fun c' inside => ?_))
  have channel' := ((layer.mem_window (Nat.zero_lt_of_lt channel)).mp inside).2.2
  rw [top c' channel', scale c' channel']

/- Two channels, `local_size` 3: a memory of ones and one whose scratch buffers, scale and top
hold `5` give the same top and bottom diff. -/
theorem cross_channel_passes_forget_scratch_stale :
    let layer : LRNLayer ℚ := ⟨3, 1, 1, 1, 1, 1, 2, 1, 1, 1⟩
    let memory : Memory LRNBuffer ℚ := fun _ _ => 1
    let memory' : Memory LRNBuffer ℚ := fun buffer _ =>
      if buffer = .bottomData ∨ buffer = .topDiff then 1 else 5
    runCalls (fun scale _ => scale) (layer.crossChannelForward [0]) memory .topData 1 =
        runCalls (fun scale _ => scale) (layer.crossChannelForward [0]) memory' .topData 1 ∧
      runCalls (fun scale _ => scale) (layer.crossChannelBackward [0] fun _ => 0)
          (runCalls (fun scale _ => scale) (layer.crossChannelForward [0]) memory) .bottomDiff 1 =
        runCalls (fun scale _ => scale) (layer.crossChannelBackward [0] fun _ => 0)
          (runCalls (fun scale _ => scale) (layer.crossChannelForward [0]) memory') .bottomDiff 1 :=
  cross_channel_passes_forget_scratch
    (show setUp (⟨3, 1, 1, 1⟩ : LRNParameter ℚ) ⟨1, 2, 1, 1⟩ 1 =
      .ok ⟨3, 1, 1, 1, 1, 1, 2, 1, 1, 1⟩ from rfl) (by decide) (by decide)
    (fun scale _ => scale) (List.Perm.refl [0]) (List.Perm.refl [0]) (by decide) (fun _ _ => 1)
    (fun buffer _ => if buffer = .bottomData ∨ buffer = .topDiff then 1 else 5) (fun _ => rfl)
    (fun _ => rfl) (n := 0) (c := 1) (h := 0) (w := 0) (by decide) (by decide) (by decide)
    (by decide)

/- Two images of three channels taken in either order, on two slots or sharing one: element
`(1, 1, 0, 0)` gets the same scale, top and bottom diff. -/
theorem cross_channel_schedule_independent_two_images :
    let layer : LRNLayer ℚ := ⟨3, 1, 1, 1, 1, 2, 3, 1, 1, 2⟩
    let memory : Memory LRNBuffer ℚ := fun _ _ => 1
    runCalls (fun scale _ => scale) (layer.crossChannelForward [0, 1]) memory .scaleData 4 =
        runCalls (fun scale _ => scale) (layer.crossChannelForward [1, 0]) memory .scaleData 4 ∧
      runCalls (fun scale _ => scale) (layer.crossChannelForward [0, 1]) memory .topData 4 =
        runCalls (fun scale _ => scale) (layer.crossChannelForward [1, 0]) memory .topData 4 ∧
      runCalls (fun scale _ => scale) (layer.crossChannelBackward [0, 1] id) memory .bottomDiff 4 =
        runCalls (fun scale _ => scale) (layer.crossChannelBackward [1, 0] fun _ => 0) memory
          .bottomDiff 4 :=
  cross_channel_schedule_independent
    (show setUp (⟨3, 1, 1, 1⟩ : LRNParameter ℚ) ⟨2, 3, 1, 1⟩ 2 =
      .ok ⟨3, 1, 1, 1, 1, 2, 3, 1, 1, 2⟩ from rfl) (fun scale _ => scale)
    (List.Perm.refl [0, 1]) (List.Perm.swap 0 1 []) (by decide) (by decide) (fun _ _ => 1)
    (n := 1) (c := 1) (h := 0) (w := 0) (by decide) (by decide) (by decide) (by decide)

end LRNLayer

end IntelCaffe
