import Mathlib.Algebra.Field.Basic
import Mathlib.Algebra.EuclideanDomain.Field
import Mathlib.Algebra.BigOperators.Group.List

/-! # The vector routines of `math_functions.hpp`

`caffe_set`, `caffe_sqr`, `caffe_axpy`, `caffe_cpu_copy`, `caffe_powx` and the element-wise
`caffe_mul`, `caffe_div`, `caffe_add` and `caffe_sub`, as calls on a memory of named buffers.
A call of length `n` writes `y[i]` for `i < n` from the values its arguments held before the
call: what these routines do when each argument is either the output itself or apart from
it, the only two ways the layers here call them. Arithmetic is exact, in a field, and
`caffe_powx` is an abstract function `pow`.

A layer keeps its data in 4-axis blobs whose innermost `height * width` elements form a
plane; every call of the layers starts at a plane boundary and covers whole planes, so the
lemmas below describe a call plane by plane.
-/

namespace IntelCaffe

structure Slice (Buffer : Type) where
  buffer : Buffer
  offset : Nat
  deriving DecidableEq, Repr

def Slice.planewise {Buffer : Type} (planeSize : Nat) (x : Slice Buffer) : Slice Buffer :=
  ⟨x.buffer, x.offset * planeSize⟩

abbrev Memory (Buffer α : Type) := Buffer → Nat → α

namespace Memory

variable {Buffer α : Type}

def read (memory : Memory Buffer α) (x : Slice Buffer) (i : Nat) : α :=
  memory x.buffer (x.offset + i)

def column (memory : Memory Buffer α) (planeSize hw : Nat) : Memory Buffer α :=
  fun buffer plane => memory buffer (plane * planeSize + hw)

theorem read_column (memory : Memory Buffer α) {planeSize : Nat} (hw : Nat) (x : Slice Buffer)
    (plane : Nat) :
    memory.read (x.planewise planeSize) (plane * planeSize + hw) =
      (memory.column planeSize hw).read x plane := by
  simp only [read, column, Slice.planewise, Nat.add_mul, Nat.add_assoc]

variable [DecidableEq Buffer]

def write (memory : Memory Buffer α) (n : Nat) (y : Slice Buffer) (value : Nat → α) :
    Memory Buffer α :=
  fun buffer index =>
    if buffer = y.buffer ∧ y.offset ≤ index ∧ index < y.offset + n then value (index - y.offset)
    else memory buffer index

theorem le_plane_iff {planeSize start plane hw : Nat} (within : hw < planeSize) :
    start * planeSize ≤ plane * planeSize + hw ↔ start ≤ plane := by
  constructor
  · intro below
    by_contra after
    have : (plane + 1) * planeSize ≤ start * planeSize := Nat.mul_le_mul_right _ (by omega)
    rw [Nat.succ_mul] at this
    omega
  · intro before
    exact (Nat.mul_le_mul_right _ before).trans (Nat.le_add_right _ _)

theorem plane_lt_iff {planeSize bound plane hw : Nat} (within : hw < planeSize) :
    plane * planeSize + hw < bound * planeSize ↔ plane < bound := by
  constructor
  · intro below
    by_contra after
    have : bound * planeSize ≤ plane * planeSize := Nat.mul_le_mul_right _ (by omega)
    omega
  · intro before
    have : (plane + 1) * planeSize ≤ bound * planeSize := Nat.mul_le_mul_right _ before
    rw [Nat.succ_mul] at this
    omega

theorem write_column (memory : Memory Buffer α) {planeSize hw : Nat} (within : hw < planeSize)
    (length start : Nat) (y : Slice Buffer) (offsetEq : y.offset = start * planeSize)
    (value : Nat → α) :
    (memory.write (length * planeSize) y value).column planeSize hw =
      (memory.column planeSize hw).write length ⟨y.buffer, start⟩
        (fun plane => value (plane * planeSize + hw)) := by
  funext buffer plane
  simp only [column, write, offsetEq, ← Nat.add_mul, le_plane_iff within, plane_lt_iff within]
  split_ifs with inside
  · congr 1
    have : start * planeSize ≤ plane * planeSize := Nat.mul_le_mul_right _ inside.2.1
    rw [Nat.sub_mul]
    omega
  · rfl

end Memory

/-- The calls into `math_functions.hpp`. -/
inductive MathCall (Buffer α : Type)
  /-- `caffe_set(n, alpha, y)`: `y[i] = alpha`. -/
  | set (n : Nat) (alpha : α) (y : Slice Buffer)
  /-- `caffe_sqr(n, a, y)`: `y[i] = a[i]^2`. -/
  | sqr (n : Nat) (a y : Slice Buffer)
  /-- `caffe_axpy(n, alpha, x, y)`: `y[i] = alpha * x[i] + y[i]`. -/
  | axpy (n : Nat) (alpha : α) (x y : Slice Buffer)
  /-- `caffe_cpu_copy(n, x, y)`: `y[i] = x[i]`. -/
  | copy (n : Nat) (x y : Slice Buffer)
  /-- `caffe_powx(n, a, b, y)`: `y[i] = a[i]^b`. -/
  | powx (n : Nat) (a : Slice Buffer) (b : α) (y : Slice Buffer)
  /-- `caffe_mul(n, a, b, y)`: `y[i] = a[i] * b[i]`. -/
  | mul (n : Nat) (a b y : Slice Buffer)
  /-- `caffe_div(n, a, b, y)`: `y[i] = a[i] / b[i]`. -/
  | div (n : Nat) (a b y : Slice Buffer)
  /-- `caffe_add(n, a, b, y)`: `y[i] = a[i] + b[i]`. -/
  | add (n : Nat) (a b y : Slice Buffer)
  /-- `caffe_sub(n, a, b, y)`: `y[i] = a[i] - b[i]`. -/
  | sub (n : Nat) (a b y : Slice Buffer)
  deriving Repr

namespace MathCall

variable {Buffer α : Type}

def count : MathCall Buffer α → Nat
  | set n .. | sqr n .. | axpy n .. | copy n .. | powx n .. | mul n .. | div n .. | add n ..
  | sub n .. => n

def output : MathCall Buffer α → Slice Buffer
  | set _ _ y | sqr _ _ y | axpy _ _ _ y | copy _ _ y | powx _ _ _ y | mul _ _ _ y
  | div _ _ _ y | add _ _ _ y | sub _ _ _ y => y

def inputs : MathCall Buffer α → List (Slice Buffer)
  | set .. => []
  | sqr _ a _ | copy _ a _ | powx _ a _ _ => [a]
  | axpy _ _ x y => [x, y]
  | mul _ a b _ | div _ a b _ | add _ a b _ | sub _ a b _ => [a, b]

def Writes (call : MathCall Buffer α) (buffer : Buffer) (index : Nat) : Prop :=
  buffer = call.output.buffer ∧ call.output.offset ≤ index ∧
    index < call.output.offset + call.count

def planewise (planeSize : Nat) : MathCall Buffer α → MathCall Buffer α
  | set n alpha y => set (n * planeSize) alpha (y.planewise planeSize)
  | sqr n a y => sqr (n * planeSize) (a.planewise planeSize) (y.planewise planeSize)
  | axpy n alpha x y =>
      axpy (n * planeSize) alpha (x.planewise planeSize) (y.planewise planeSize)
  | copy n x y => copy (n * planeSize) (x.planewise planeSize) (y.planewise planeSize)
  | powx n a b y => powx (n * planeSize) (a.planewise planeSize) b (y.planewise planeSize)
  | mul n a b y => mul (n * planeSize) (a.planewise planeSize) (b.planewise planeSize)
      (y.planewise planeSize)
  | div n a b y => div (n * planeSize) (a.planewise planeSize) (b.planewise planeSize)
      (y.planewise planeSize)
  | add n a b y => add (n * planeSize) (a.planewise planeSize) (b.planewise planeSize)
      (y.planewise planeSize)
  | sub n a b y => sub (n * planeSize) (a.planewise planeSize) (b.planewise planeSize)
      (y.planewise planeSize)

theorem count_planewise (planeSize : Nat) (call : MathCall Buffer α) :
    (call.planewise planeSize).count = call.count * planeSize := by
  cases call <;> rfl

theorem output_planewise (planeSize : Nat) (call : MathCall Buffer α) :
    (call.planewise planeSize).output = call.output.planewise planeSize := by
  cases call <;> rfl

variable [Field α]

def value (pow : α → α → α) (memory : Memory Buffer α) : MathCall Buffer α → Nat → α
  | set _ alpha _ => fun _ => alpha
  | sqr _ a _ => fun i => memory.read a i * memory.read a i
  | axpy _ alpha x y => fun i => alpha * memory.read x i + memory.read y i
  | copy _ x _ => memory.read x
  | powx _ a b _ => fun i => pow (memory.read a i) b
  | mul _ a b _ => fun i => memory.read a i * memory.read b i
  | div _ a b _ => fun i => memory.read a i / memory.read b i
  | add _ a b _ => fun i => memory.read a i + memory.read b i
  | sub _ a b _ => fun i => memory.read a i - memory.read b i

theorem value_planewise (pow : α → α → α) (memory : Memory Buffer α) (planeSize hw : Nat)
    (call : MathCall Buffer α) (plane : Nat) :
    (call.planewise planeSize).value pow memory (plane * planeSize + hw) =
      call.value pow (memory.column planeSize hw) plane := by
  cases call <;> simp only [value, planewise, memory.read_column hw]

variable [DecidableEq Buffer]

def exec (pow : α → α → α) (call : MathCall Buffer α) (memory : Memory Buffer α) :
    Memory Buffer α :=
  memory.write call.count call.output (call.value pow memory)

theorem exec_column (pow : α → α → α) (memory : Memory Buffer α) {planeSize hw : Nat}
    (within : hw < planeSize) (call : MathCall Buffer α) :
    ((call.planewise planeSize).exec pow memory).column planeSize hw =
      call.exec pow (memory.column planeSize hw) := by
  rw [exec, exec, count_planewise, output_planewise, Memory.write_column memory within _ _ _ rfl]
  exact congrArg ((memory.column planeSize hw).write _ _)
    (funext (value_planewise pow memory planeSize hw call))

theorem exec_one (pow : α → α → α) {call : MathCall Buffer α} (one : call.count = 1)
    (memory : Memory Buffer α) (buffer : Buffer) (index : Nat) :
    call.exec pow memory buffer index =
      if buffer = call.output.buffer ∧ index = call.output.offset then call.value pow memory 0
      else memory buffer index := by
  simp only [exec, Memory.write, one]
  by_cases target : buffer = call.output.buffer ∧ index = call.output.offset
  · rw [if_pos ⟨target.1, by omega, by omega⟩, if_pos target, target.2, Nat.sub_self]
  · rw [if_neg fun ⟨same, low, high⟩ => target ⟨same, by omega⟩, if_neg target]

theorem exec_of_not_writes (pow : α → α → α) {call : MathCall Buffer α} {buffer : Buffer}
    {index : Nat} (apart : ¬ call.Writes buffer index) (memory : Memory Buffer α) :
    call.exec pow memory buffer index = memory buffer index :=
  if_neg apart

end MathCall

def runCalls {Buffer α : Type} [Field α] [DecidableEq Buffer] (pow : α → α → α) :
    List (MathCall Buffer α) → Memory Buffer α → Memory Buffer α
  | [], memory => memory
  | call :: rest, memory => runCalls pow rest (call.exec pow memory)

@[simp] theorem runCalls_nil {Buffer α : Type} [Field α] [DecidableEq Buffer]
    (pow : α → α → α) (memory : Memory Buffer α) : runCalls pow [] memory = memory := rfl

@[simp] theorem runCalls_cons {Buffer α : Type} [Field α] [DecidableEq Buffer]
    (pow : α → α → α) (call : MathCall Buffer α) (rest : List (MathCall Buffer α))
    (memory : Memory Buffer α) :
    runCalls pow (call :: rest) memory = runCalls pow rest (call.exec pow memory) := rfl

theorem runCalls_column {Buffer α : Type} [Field α] [DecidableEq Buffer] (pow : α → α → α)
    {planeSize hw : Nat} (within : hw < planeSize) (calls : List (MathCall Buffer α))
    (memory : Memory Buffer α) :
    (runCalls pow (calls.map (MathCall.planewise planeSize)) memory).column planeSize hw =
      runCalls pow calls (memory.column planeSize hw) := by
  induction calls generalizing memory with
  | nil => rfl
  | cons call rest induction =>
    simp only [runCalls_cons, List.map_cons]
    rw [induction, MathCall.exec_column pow memory within]

theorem runCalls_of_not_writes {Buffer α : Type} [Field α] [DecidableEq Buffer]
    (pow : α → α → α) {calls : List (MathCall Buffer α)} {buffer : Buffer} {index : Nat}
    (apart : ∀ call ∈ calls, ¬ call.Writes buffer index) (memory : Memory Buffer α) :
    runCalls pow calls memory buffer index = memory buffer index := by
  induction calls generalizing memory with
  | nil => rfl
  | cons call rest induction =>
    rw [runCalls_cons, induction (fun other member => apart other (List.mem_cons_of_mem _ member)),
      MathCall.exec_of_not_writes pow (apart call (List.mem_cons_self _ _))]

theorem runCalls_append {Buffer α : Type} [Field α] [DecidableEq Buffer] (pow : α → α → α)
    (first second : List (MathCall Buffer α)) (memory : Memory Buffer α) :
    runCalls pow (first ++ second) memory = runCalls pow second (runCalls pow first memory) := by
  induction first generalizing memory with
  | nil => rfl
  | cons call rest induction => exact induction _

end IntelCaffe
