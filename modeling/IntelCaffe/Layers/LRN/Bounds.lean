import IntelCaffe.Layers.LRN.Layer
import Mathlib.Algebra.Field.Rat

/-! # The ranges of the cross-channel passes

Every range a call of `CrossChannelForward_cpu` or `CrossChannelBackward_cpu` reads or
writes lies inside its buffer, as `Reshape` shaped it; and what the iteration for one image
writes lies in the block of that image and in the slot of its thread, so that iterations for
different images on different threads write apart.

Every offset of these calls is a whole number of planes of `height * width` elements, and
every count too, so all bounds below are counted in planes.
-/

namespace IntelCaffe

namespace LRNLayer

variable {α : Type} (layer : LRNLayer α)

theorem setUp_ok {param : LRNParameter α} {bottom : BlobShape} {maxThreads : Nat}
    {layer : LRNLayer α} (ok : setUp param bottom maxThreads = .ok layer) :
    layer.size % 2 = 1 ∧ layer.prePad = (layer.size - 1) / 2 ∧ layer.scaleShape = bottom ∧
      0 < layer.numOfThreads ∧ layer.size = param.localSize ∧ layer.alpha = param.alpha ∧
      layer.beta = param.beta ∧ layer.k = param.k := by
  unfold setUp layerSetUp at ok
  split at ok
  case isTrue odd =>
    cases ok
    refine ⟨odd, rfl, rfl, ?_, rfl, rfl, rfl, rfl⟩
    simp only [reshape]
    split_ifs <;> omega
  case isFalse => cases ok

def planes : LRNBuffer → Nat
  | .bottomData | .bottomDiff | .topData | .topDiff | .scaleData => layer.num * layer.channels
  | .paddedRatioData => layer.numOfThreads * (layer.channels + layer.size - 1)
  | .accumRatioData | .accumRatioTimesBottom => layer.numOfThreads

theorem capacity_eq (buffer : LRNBuffer) :
    layer.capacity buffer = layer.planes buffer * (layer.height * layer.width) := by
  cases buffer <;>
    simp [capacity, planes, scaleShape, paddedRatioShape, accumRatioShape, BlobShape.count,
      Nat.mul_assoc]

theorem scaleShape_offset (n c : Nat) :
    layer.scaleShape.offset n c 0 0 = (n * layer.channels + c) * (layer.height * layer.width) := by
  simp [BlobShape.offset, scaleShape, Nat.mul_assoc]

theorem paddedRatioShape_offset (tid c : Nat) :
    layer.paddedRatioShape.offset tid c 0 0 =
      (tid * (layer.channels + layer.size - 1) + c) * (layer.height * layer.width) := by
  simp [BlobShape.offset, paddedRatioShape, Nat.mul_assoc]

theorem accumRatioShape_offset (tid : Nat) :
    layer.accumRatioShape.offset tid 0 0 0 = tid * (layer.height * layer.width) := by
  simp [BlobShape.offset, accumRatioShape, Nat.mul_assoc]

theorem block_fits {i total width offset : Nat} (below : i < total) (within : offset ≤ width) :
    i * width + offset ≤ total * width := by
  have := Nat.mul_le_mul_right width below
  rw [Nat.succ_mul] at this
  omega

structure Inside (count : Nat) (slice : Slice LRNBuffer) : Prop where
  fits : slice.offset + count ≤ layer.capacity slice.buffer

theorem inside_of_planes {count : Nat} {slice : Slice LRNBuffer} (start length : Nat)
    (offsetEq : slice.offset = start * (layer.height * layer.width))
    (countEq : count = length * (layer.height * layer.width))
    (fits : start + length ≤ layer.planes slice.buffer) : layer.Inside count slice := by
  constructor
  rw [offsetEq, countEq, capacity_eq, ← Nat.add_mul]
  exact Nat.mul_le_mul_right _ fits

theorem limit_lt (channels : 0 < layer.channels) : layer.limit < layer.channels := by
  unfold limit
  split <;> omega

theorem inversePrePad_lt (odd : layer.size % 2 = 1) : layer.inversePrePad < layer.size := by
  unfold inversePrePad
  omega

theorem inside_whole (buffer : LRNBuffer) {count : Nat} (countEq : count = layer.capacity buffer) :
    layer.Inside count ⟨buffer, 0⟩ :=
  ⟨((Nat.zero_add count).trans countEq).le⟩

theorem inside_block {buffer : LRNBuffer} {n c length count : Nat}
    (scaleLike : layer.planes buffer = layer.num * layer.channels) (image : n < layer.num)
    (fits : c + length ≤ layer.channels)
    (countEq : count = length * (layer.height * layer.width)) :
    layer.Inside count ⟨buffer, layer.scaleShape.offset n c 0 0⟩ := by
  refine layer.inside_of_planes _ length (layer.scaleShape_offset n c) countEq ?_
  rw [scaleLike]
  have := block_fits image fits
  omega

theorem inside_slot {tid c length count : Nat} (thread : tid < layer.numOfThreads)
    (fits : c + length ≤ layer.channels + layer.size - 1)
    (countEq : count = length * (layer.height * layer.width)) :
    layer.Inside count (layer.paddedRatioAt tid c) := by
  refine layer.inside_of_planes _ length (layer.paddedRatioShape_offset tid c) countEq ?_
  have := block_fits thread fits
  simp only [paddedRatioAt, planes]
  omega

theorem inside_accum {buffer : LRNBuffer} {tid : Nat}
    (accumLike : layer.planes buffer = layer.numOfThreads) (thread : tid < layer.numOfThreads) :
    layer.Inside (layer.height * layer.width) ⟨buffer, layer.accumRatioShape.offset tid 0 0 0⟩ :=
  layer.inside_of_planes tid 1 (layer.accumRatioShape_offset tid) (Nat.one_mul _).symm
    (by rw [accumLike]; omega)

theorem inside_accumRatioAt {tid : Nat} (thread : tid < layer.numOfThreads) :
    layer.Inside (layer.height * layer.width) (layer.accumRatioAt tid) :=
  layer.inside_accum rfl thread

theorem inside_accumRatioTimesBottomAt {tid : Nat} (thread : tid < layer.numOfThreads) :
    layer.Inside (layer.height * layer.width) (layer.accumRatioTimesBottomAt tid) :=
  layer.inside_accum rfl thread

def ownedBlock (n tid : Nat) : LRNBuffer → Nat × Nat
  | .paddedRatioData => (tid, layer.channels + layer.size - 1)
  | .accumRatioData | .accumRatioTimesBottom => (tid, 1)
  | .bottomData | .bottomDiff | .topData | .topDiff | .scaleData => (n, layer.channels)

def Owned (n tid : Nat) (buffer : LRNBuffer) (index : Nat) : Prop :=
  let block := layer.ownedBlock n tid buffer
  block.1 * (block.2 * (layer.height * layer.width)) ≤ index ∧
    index < (block.1 + 1) * (block.2 * (layer.height * layer.width))

theorem blocks_apart {a b size index : Nat} (different : a ≠ b)
    (inA : a * size ≤ index ∧ index < (a + 1) * size) :
    ¬ (b * size ≤ index ∧ index < (b + 1) * size) := by
  rintro ⟨low, high⟩
  rcases Nat.lt_or_gt_of_ne different with before | after
  · have := Nat.mul_le_mul_right size (show a + 1 ≤ b from before)
    omega
  · have := Nat.mul_le_mul_right size (show b + 1 ≤ a from after)
    omega

theorem owned_apart {n n' tid tid' : Nat} (images : n ≠ n') (threads : tid ≠ tid')
    {buffer : LRNBuffer} {index : Nat} (owned : layer.Owned n tid buffer index) :
    ¬ layer.Owned n' tid' buffer index := by
  cases buffer <;> exact blocks_apart (by assumption) owned

theorem writes_owned {β : Type} {call : MathCall LRNBuffer β} {n tid : Nat} {buffer : LRNBuffer}
    {index : Nat} (writes : call.Writes buffer index) (start length : Nat)
    (offsetEq : call.output.offset = start * (layer.height * layer.width))
    (countEq : call.count = length * (layer.height * layer.width))
    (low : (layer.ownedBlock n tid call.output.buffer).1 *
      (layer.ownedBlock n tid call.output.buffer).2 ≤ start)
    (high : start + length ≤ (layer.ownedBlock n tid call.output.buffer).1 *
      (layer.ownedBlock n tid call.output.buffer).2 +
        (layer.ownedBlock n tid call.output.buffer).2) :
    layer.Owned n tid buffer index := by
  obtain ⟨rfl, after, before⟩ := writes
  rw [offsetEq, countEq, ← Nat.add_mul] at *
  have lowPlanes := Nat.mul_le_mul_right (layer.height * layer.width) low
  have highPlanes := Nat.mul_le_mul_right (layer.height * layer.width) high
  simp only [Owned, Nat.add_mul, Nat.one_mul, ← Nat.mul_assoc] at *
  omega

section Calls

variable {β : Type} {call : MathCall LRNBuffer β} {n tid : Nat} {buffer : LRNBuffer} {index : Nat}

theorem writes_block_owned (writes : call.Writes buffer index) {target : LRNBuffer}
    {c length : Nat} (output : call.output = ⟨target, layer.scaleShape.offset n c 0 0⟩)
    (block : layer.ownedBlock n tid target = (n, layer.channels))
    (fits : c + length ≤ layer.channels)
    (countEq : call.count = length * (layer.height * layer.width)) :
    layer.Owned n tid buffer index := by
  refine layer.writes_owned writes _ length (by rw [output, scaleShape_offset]) countEq ?_ ?_ <;>
    simp only [output, block] <;> omega

theorem writes_slot_owned (writes : call.Writes buffer index) {c length : Nat}
    (output : call.output = layer.paddedRatioAt tid c)
    (fits : c + length ≤ layer.channels + layer.size - 1)
    (countEq : call.count = length * (layer.height * layer.width)) :
    layer.Owned n tid buffer index := by
  refine layer.writes_owned writes _ length (by rw [output, paddedRatioAt, paddedRatioShape_offset])
    countEq ?_ ?_ <;> rw [output] <;> simp only [paddedRatioAt, ownedBlock] <;> omega

theorem writes_accum_owned (writes : call.Writes buffer index) {target : LRNBuffer}
    (output : call.output = ⟨target, layer.accumRatioShape.offset tid 0 0 0⟩)
    (block : layer.ownedBlock n tid target = (tid, 1))
    (countEq : call.count = layer.height * layer.width) :
    layer.Owned n tid buffer index := by
  refine layer.writes_owned writes tid 1 (by rw [output, accumRatioShape_offset])
    (by rw [countEq, Nat.one_mul]) ?_ ?_ <;> rw [output, block] <;> omega

end Calls

def CallsInside {β : Type} (calls : List (MathCall LRNBuffer β)) : Prop :=
  ∀ call ∈ calls, ∀ slice ∈ call.output :: call.inputs, layer.Inside call.count slice

def CallsOwned {β : Type} (n tid : Nat) (calls : List (MathCall LRNBuffer β)) : Prop :=
  ∀ call ∈ calls, ∀ {buffer index}, call.Writes buffer index → layer.Owned n tid buffer index

theorem writes_apart {β : Type} {first second : List (MathCall LRNBuffer β)} {n n' tid tid' : Nat}
    (images : n ≠ n') (threads : tid ≠ tid') (owned : layer.CallsOwned n tid first)
    (owned' : layer.CallsOwned n' tid' second) :
    ∀ call ∈ first, ∀ call' ∈ second, ∀ buffer index, call.Writes buffer index →
      ¬ call'.Writes buffer index :=
  fun call member call' member' _ _ writes writes' =>
    layer.owned_apart images threads (owned call member writes) (owned' call' member' writes')

variable [Field α]

theorem forwardChannel_inside {n c : Nat} (image : n < layer.num) (channel : c < layer.channels) :
    layer.CallsInside (layer.forwardChannel n c) := by
  simp only [CallsInside, forwardChannel, List.mem_append, List.mem_singleton,
    List.mem_ite_nil_right]
  rintro call ((rfl | ⟨head, rfl⟩) | ⟨tail, rfl⟩) <;>
    simp only [MathCall.output, MathCall.inputs, List.mem_cons, List.mem_singleton,
      List.not_mem_nil, or_false] <;>
    rintro slice (rfl | rfl | rfl) <;>
    exact layer.inside_block rfl image (by omega) (Nat.one_mul _).symm

theorem forwardChannel_owned {n c : Nat} (tid : Nat) (channel : c < layer.channels) :
    layer.CallsOwned n tid (layer.forwardChannel n c) := by
  simp only [CallsOwned, forwardChannel, List.mem_append, List.mem_singleton,
    List.mem_ite_nil_right]
  rintro call ((rfl | ⟨head, rfl⟩) | ⟨tail, rfl⟩) _ _ writes <;>
    exact layer.writes_block_owned writes rfl rfl (by omega) (Nat.one_mul _).symm

theorem forwardImage_inside {n : Nat} (channels : 0 < layer.channels) (image : n < layer.num) :
    layer.CallsInside (layer.forwardImage n) := by
  have below := layer.limit_lt channels
  simp only [CallsInside, forwardImage, List.mem_append, List.mem_singleton, List.mem_map,
    List.mem_range, List.mem_flatMap, List.mem_range'_1]
  rintro call ((rfl | ⟨c, channel, rfl⟩) | ⟨c, ⟨-, channel⟩, member⟩)
  case inl.inl =>
    simp only [MathCall.output, MathCall.inputs, List.mem_singleton]
    rintro slice rfl
    exact layer.inside_block rfl image (by omega) (Nat.mul_assoc _ _ _)
  case inl.inr =>
    simp only [MathCall.output, MathCall.inputs, List.mem_cons, List.mem_singleton,
      List.not_mem_nil, or_false]
    rintro slice (rfl | rfl | rfl) <;>
      exact layer.inside_block rfl image (by omega) (Nat.one_mul _).symm
  case inr => exact layer.forwardChannel_inside image (by omega) call member

theorem forwardImage_owned {n : Nat} (tid : Nat) (channels : 0 < layer.channels) :
    layer.CallsOwned n tid (layer.forwardImage n) := by
  have below := layer.limit_lt channels
  simp only [CallsOwned, forwardImage, List.mem_append, List.mem_singleton, List.mem_map,
    List.mem_range, List.mem_flatMap, List.mem_range'_1]
  rintro call ((rfl | ⟨c, channel, rfl⟩) | ⟨c, ⟨-, channel⟩, member⟩) _ _ writes
  case inl.inl => exact layer.writes_block_owned writes rfl rfl (by omega) (Nat.mul_assoc _ _ _)
  case inl.inr => exact layer.writes_block_owned writes rfl rfl (by omega) (Nat.one_mul _).symm
  case inr => exact layer.forwardChannel_owned tid (by omega) call member writes

theorem backwardChannel_inside {n tid c : Nat} (odd : layer.size % 2 = 1) (image : n < layer.num)
    (thread : tid < layer.numOfThreads) (channel : c < layer.channels) :
    layer.CallsInside (layer.backwardChannel n tid c) := by
  simp only [CallsInside, backwardChannel, List.mem_cons, List.mem_singleton, List.not_mem_nil,
    or_false]
  rintro call (rfl | rfl | rfl | rfl) <;>
    simp only [MathCall.output, MathCall.inputs, List.mem_cons, List.mem_singleton,
      List.not_mem_nil, or_false] <;>
    rintro slice (rfl | rfl | rfl) <;>
    first
    | exact layer.inside_accumRatioAt thread
    | exact layer.inside_accumRatioTimesBottomAt thread
    | exact layer.inside_slot thread (by omega) (Nat.one_mul _).symm
    | exact layer.inside_block rfl image (by omega) (Nat.one_mul _).symm

theorem backwardChannel_owned {n tid c : Nat} (channel : c < layer.channels) :
    layer.CallsOwned n tid (layer.backwardChannel n tid c) := by
  simp only [CallsOwned, backwardChannel, List.mem_cons, List.mem_singleton, List.not_mem_nil,
    or_false]
  rintro call (rfl | rfl | rfl | rfl) _ _ writes
  all_goals first
    | exact layer.writes_accum_owned writes rfl rfl rfl
    | exact layer.writes_block_owned writes rfl rfl (by omega) (Nat.one_mul _).symm

theorem backwardImage_inside {n tid : Nat} (odd : layer.size % 2 = 1) (image : n < layer.num)
    (thread : tid < layer.numOfThreads) : layer.CallsInside (layer.backwardImage n tid) := by
  have ratio := layer.inversePrePad_lt odd
  intro call member
  simp only [backwardImage, List.mem_append, List.mem_cons, List.mem_singleton, List.not_mem_nil,
    or_false, List.mem_map, List.mem_range, List.mem_flatMap] at member
  obtain opening | ⟨c, channel, member⟩ := member
  · obtain (rfl | rfl | rfl) | ⟨c, channel, rfl⟩ := opening <;>
      simp only [MathCall.output, MathCall.inputs, List.mem_cons, List.mem_singleton,
        List.not_mem_nil, or_false] <;>
      rintro slice (rfl | rfl | rfl)
    all_goals first
      | exact layer.inside_accumRatioAt thread
      | exact layer.inside_slot thread (by omega) (Nat.one_mul _).symm
      | exact layer.inside_slot thread (by omega) (Nat.mul_assoc _ _ _)
      | exact layer.inside_block rfl image (by omega) (Nat.mul_assoc _ _ _)
  · exact layer.backwardChannel_inside odd image thread channel call member

theorem backwardImage_owned {n tid : Nat} (odd : layer.size % 2 = 1) :
    layer.CallsOwned n tid (layer.backwardImage n tid) := by
  have ratio := layer.inversePrePad_lt odd
  simp only [CallsOwned, backwardImage, List.mem_append, List.mem_cons, List.mem_singleton,
    List.not_mem_nil, or_false, List.mem_map, List.mem_range, List.mem_flatMap]
  rintro call (opening | ⟨c, channel, member⟩) _ _ writes
  · obtain (rfl | rfl | rfl) | ⟨c, channel, rfl⟩ := opening
    all_goals first
      | exact layer.writes_accum_owned writes rfl rfl rfl
      | exact layer.writes_slot_owned writes rfl (by omega) (Nat.mul_assoc _ _ _)
  · exact layer.backwardChannel_owned channel call member writes

theorem crossChannelForward_inside {order : List Nat} (channels : 0 < layer.channels)
    (images : ∀ n ∈ order, n < layer.num) :
    layer.CallsInside (layer.crossChannelForward order) := by
  intro call member
  simp only [crossChannelForward, List.mem_append, List.mem_cons, List.mem_singleton,
    List.not_mem_nil, or_false, List.mem_flatMap] at member
  obtain (opening | ⟨n, image, member⟩) | closing := member
  · subst opening
    simp only [MathCall.output, MathCall.inputs, List.mem_cons, List.mem_singleton,
      List.not_mem_nil, or_false]
    rintro slice (rfl | rfl) <;> exact layer.inside_whole _ rfl
  · exact layer.forwardImage_inside channels (images n image) call member
  · obtain rfl | rfl := closing <;>
      simp only [MathCall.output, MathCall.inputs, List.mem_cons, List.mem_singleton,
        List.not_mem_nil, or_false] <;>
      rintro slice (rfl | rfl | rfl) <;> exact layer.inside_whole _ rfl

theorem crossChannelBackward_inside {order : List Nat} {tid : Nat → Nat}
    (odd : layer.size % 2 = 1) (images : ∀ n ∈ order, n < layer.num)
    (threads : ∀ n ∈ order, tid n < layer.numOfThreads) :
    layer.CallsInside (layer.crossChannelBackward order tid) := by
  intro call member
  simp only [crossChannelBackward, List.mem_append, List.mem_cons, List.mem_singleton,
    List.not_mem_nil, or_false, List.mem_flatMap] at member
  obtain opening | ⟨n, image, member⟩ := member
  · obtain rfl | rfl | rfl := opening <;>
      simp only [MathCall.output, MathCall.inputs, List.mem_cons, List.mem_singleton,
        List.not_mem_nil, or_false] <;>
      rintro slice (rfl | rfl | rfl) <;> exact layer.inside_whole _ rfl
  · exact layer.backwardImage_inside odd (images n image) (threads n image) call member

theorem runCalls_of_owned {calls : List (MathCall LRNBuffer α)} {n tid : Nat}
    (owned : layer.CallsOwned n tid calls) (pow : α → α → α) (memory : Memory LRNBuffer α)
    {buffer : LRNBuffer} {other index : Nat} (different : other ≠ (layer.ownedBlock n tid buffer).1)
    (inOther : other * ((layer.ownedBlock n tid buffer).2 * (layer.height * layer.width)) ≤ index ∧
      index < (other + 1) * ((layer.ownedBlock n tid buffer).2 * (layer.height * layer.width))) :
    runCalls pow calls memory buffer index = memory buffer index :=
  runCalls_of_not_writes pow
    (fun call member writes => blocks_apart different.symm (owned call member writes) inOther)
    memory

structure SafeCalls (order : List Nat) (tid : Nat → Nat) : Prop where
  forward_inside : layer.CallsInside (layer.crossChannelForward order)
  backward_inside : layer.CallsInside (layer.crossChannelBackward order tid)
  forward_owned : ∀ n ∈ order, ∀ slot, layer.CallsOwned n slot (layer.forwardImage n)
  backward_owned : ∀ n ∈ order, layer.CallsOwned n (tid n) (layer.backwardImage n (tid n))
  forward_apart : ∀ n ∈ order, ∀ n' ∈ order, n ≠ n' →
    ∀ call ∈ layer.forwardImage n, ∀ call' ∈ layer.forwardImage n', ∀ buffer index,
      call.Writes buffer index → ¬ call'.Writes buffer index
  backward_apart : ∀ n ∈ order, ∀ n' ∈ order, n ≠ n' → tid n ≠ tid n' →
    ∀ call ∈ layer.backwardImage n (tid n), ∀ call' ∈ layer.backwardImage n' (tid n'),
      ∀ buffer index, call.Writes buffer index → ¬ call'.Writes buffer index

theorem cross_channel_calls_safe {param : LRNParameter α} {bottom : BlobShape}
    {maxThreads : Nat} {layer : LRNLayer α} (ok : setUp param bottom maxThreads = .ok layer)
    (channels : 0 < bottom.channels) (order : List Nat) (tid : Nat → Nat)
    (images : ∀ n ∈ order, n < bottom.num) (threads : ∀ n ∈ order, tid n < layer.numOfThreads) :
    layer.SafeCalls order tid := by
  obtain ⟨odd, -, rfl, -⟩ := setUp_ok ok
  refine ⟨layer.crossChannelForward_inside channels images,
    layer.crossChannelBackward_inside odd images threads,
    fun n _ slot => layer.forwardImage_owned slot channels,
    fun n _ => layer.backwardImage_owned odd, ?_, ?_⟩
  · intro n _ n' _ images
    exact layer.writes_apart images images (layer.forwardImage_owned n channels)
      (layer.forwardImage_owned n' channels)
  · intro n _ n' _ images threads
    exact layer.writes_apart images threads (layer.backwardImage_owned odd)
      (layer.backwardImage_owned odd)

theorem cross_channel_calls_safe_two_images :
    (⟨3, 1, 1, 1, 1, 2, 3, 2, 2, 2⟩ : LRNLayer ℚ).SafeCalls [1, 0] id :=
  cross_channel_calls_safe
    (show setUp (⟨3, 1, 1, 1⟩ : LRNParameter ℚ) ⟨2, 3, 2, 2⟩ 2 = .ok ⟨3, 1, 1, 1, 1, 2, 3, 2, 2, 2⟩
      from rfl) (by decide) [1, 0] id (by decide) (by decide)

end LRNLayer

end IntelCaffe
