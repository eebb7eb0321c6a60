import HashJoin.ColumnInserter
import HashJoin.FilterThreadPool
import HashJoin.Lib.Interleave
import HashJoin.Statement

/-!
# Filtering whole columns

`InnerColumn<T>` and `InnerColumn<std::string>` with their comparison kernels, the evaluation of a
filter on a table, which gives one bit per row, and `from_inner_to_column`, which writes the rows
of the set bits. The filter threads work on disjoint ranges of bytes, in any order.
-/

namespace HashJoin

open Bytes Interleave

/-! ## Columns -/

/-- What `bitmap_push_back` does for `row`: a new byte if `grow`, else one bit of an old byte. -/
def bitmapPushBack (bitmap : List UInt8) (grow : Bool) (row : Nat) (notNull : Bool) : List UInt8 :=
  if grow then bitmap ++ [if notNull then 0x01 else 0x00]
  else bitmap.modify (row / 8) (if notNull then setBit (row % 8) else clearBit (row % 8))

/-- `InnerColumn<T>`. -/
structure InnerColumn (T : Type) where
  data : List T := []
  bitmap : List UInt8 := []

/-- `InnerColumn<std::string>`. `offsets` are the ends of the strings. -/
structure InnerStringColumn where
  data : List UInt8 := []
  offsets : List Nat := []
  bitmap : List UInt8 := []
  row : Nat := 0

def byteAt (bitmap : List UInt8) (i : Nat) : Except EvalFault UInt8 :=
  match bitmap[i]? with
  | some byte => .ok byte
  | none => .error .outOfRange

/-- `is_not_null` by the given bitmap. -/
def isNotNull (bitmap : List UInt8) (idx : Nat) : Except EvalFault Bool := do
  let bits ← byteAt bitmap (idx / 8)
  .ok (testBit bits (idx % 8))

namespace InnerColumn

variable {T : Type}

/-- `bitmap_push_back`, after the value. -/
def pushBit (c : InnerColumn T) (notNull : Bool) : InnerColumn T :=
  { c with
    bitmap := bitmapPushBack c.bitmap ((c.data.length + 7) / 8 > c.bitmap.length)
      (c.data.length - 1) notNull }

/-- `push_back`, or `push_back_null`, which stores `T{}`. -/
def push [Inhabited T] (c : InnerColumn T) : Option T → InnerColumn T
  | some value => { c with data := c.data ++ [value] }.pushBit true
  | none => { c with data := c.data ++ [default] }.pushBit false

def get (c : InnerColumn T) (idx : Nat) : Except EvalFault T :=
  match c.data[idx]? with
  | some value => .ok value
  | none => .error .outOfRange

end InnerColumn

namespace InnerStringColumn

/-- `bitmap_push_back`. -/
def pushBit (c : InnerStringColumn) (notNull : Bool) : InnerStringColumn :=
  { c with
    bitmap := bitmapPushBack c.bitmap (c.row / 8 + 1 > c.bitmap.length) c.row notNull
    row := c.row + 1 }

/-- `push_back` or `push_back_null`. -/
def push (c : InnerStringColumn) : Option (List UInt8) → InnerStringColumn
  | some value =>
    let data := c.data ++ value
    { c with data := data, offsets := c.offsets ++ [data.length] }.pushBit true
  | none => { c with offsets := c.offsets ++ [c.data.length] }.pushBit false

/-- The bytes between the end of the string before and that of the string itself. -/
def get (c : InnerStringColumn) (idx : Nat) : Except EvalFault (List UInt8) :=
  match (if idx = 0 then some 0 else c.offsets[idx - 1]?), c.offsets[idx]? with
  | some first, some last =>
    if first ≤ last ∧ last ≤ c.data.length then .ok ((c.data.drop first).take (last - first))
    else .error .outOfRange
  | _, _ => .error .outOfRange

end InnerStringColumn

/-! ## The threads -/

/-- A step of a task, `bytes[byte] = update(bytes[byte])`. -/
structure ByteWrite where
  byte : Nat
  update : UInt8 → UInt8

def ByteWrite.store (bytes : List UInt8) (w : ByteWrite) : Except EvalFault (List UInt8) :=
  if w.byte < bytes.length then .ok (bytes.modify w.byte w.update) else .error .outOfRange

/-- The steps of one thread in `filter_tp.run(task, num_tasks)`. -/
def FilterThreadPool.program (n : Nat) (task : Nat → Nat → Except EvalFault (List ByteWrite))
    (numTasks threadId : Nat) : Except EvalFault (List ByteWrite) :=
  match rangeOf n threadId (task, numTasks) with
  | some (function, first, last) => function first last
  | none => .ok []

/-- `filter_tp.run(task, num_tasks)` on `n` threads: each takes the steps of the task for its own
range of bytes, by turns in the order `sched`. -/
def FilterThreadPool.run (n : Nat) (sched : List Nat)
    (task : Nat → Nat → Except EvalFault (List ByteWrite)) (numTasks : Nat) (bytes : List UInt8) :
    Except EvalFault (List UInt8) := do
  let programs ← (List.range n).mapM (program n task numTasks)
  (complete n (fun threadId => programs.getD threadId []) sched).foldlM
    (fun bytes w => w.2.store bytes) bytes

section Pool

variable (n : Nat) (sched : List Nat)

/-! ## Bitmaps -/

/-- The task that computes the bytes of a range one by one. -/
def byteTask (update : Nat → Except EvalFault (UInt8 → UInt8)) (first last : Nat) :
    Except EvalFault (List ByteWrite) :=
  (List.range' first (last - first)).mapM fun i => do .ok ⟨i, ← update i⟩

def bitmapNot (bitmap : List UInt8) : Except EvalFault (List UInt8) :=
  FilterThreadPool.run n sched (byteTask fun _ => .ok (~~~ ·)) bitmap.length bitmap

/-- `bitmap_and` and `bitmap_or`, which differ in the operator. -/
def bitmapCombine (op : UInt8 → UInt8 → UInt8) (lhs rhs : List UInt8) :
    Except EvalFault (List UInt8) :=
  if lhs.length = rhs.length then
    FilterThreadPool.run n sched
      (byteTask fun i => do
        let l ← byteAt lhs i
        let r ← byteAt rhs i
        .ok fun _ => op l r)
      lhs.length (List.replicate lhs.length 0)
  else .error .assertion

def bitmapAnd : List UInt8 → List UInt8 → Except EvalFault (List UInt8) :=
  bitmapCombine n sched (· &&& ·)

def bitmapOr : List UInt8 → List UInt8 → Except EvalFault (List UInt8) :=
  bitmapCombine n sched (· ||| ·)

/-! ## Kernels -/

/-- `static_cast<uint8_t>(b) << bit_idx`. -/
def bitOfBool (b : Bool) (bitIdx : Nat) : UInt8 := (if b then 1 else 0) <<< UInt8.ofNat bitIdx

namespace InnerColumn

variable {T : Type}

/-- The loop of a static kernel, called with pointers to the byte `byteBegin` of the bitmaps and to
its first value. -/
def kernelTask (c : InnerColumn T) (cmp : T → Bool) (byteBegin byteEnd : Nat) :
    Except EvalFault (List ByteWrite) :=
  (List.range (min (byteEnd * 8) c.data.length - byteBegin * 8)).mapM fun i => do
    let byteIdx := i / 8
    let bitIdx := i % 8
    let bits ← byteAt c.bitmap (byteBegin + byteIdx)
    let value ← c.get (byteBegin * 8 + i)
    .ok ⟨byteBegin + byteIdx,
      (· ||| (bits &&& (1 <<< UInt8.ofNat bitIdx) &&& bitOfBool (cmp value) bitIdx))⟩

def kernel (cmp : T → Bool) (c : InnerColumn T) : Except EvalFault (List UInt8) :=
  FilterThreadPool.run n sched (c.kernelTask cmp) ((c.data.length + 7) / 8)
    (List.replicate c.bitmap.length 0)

variable [Comparable T] (c : InnerColumn T) (rhs : T)

def less := c.kernel n sched (Comparable.less · rhs)
def greater := c.kernel n sched (Comparable.greater · rhs)
def lessEqual := c.kernel n sched (Comparable.lessEqual · rhs)
def greaterEqual := c.kernel n sched (Comparable.greaterEqual · rhs)
def equal := c.kernel n sched (Comparable.equal · rhs)
def notEqual := c.kernel n sched (Comparable.notEqual · rhs)

end InnerColumn

namespace InnerStringColumn

/-- The two loops of a kernel, the inner one left at the end of the column. -/
def kernelTask (c : InnerStringColumn) (cmp : List UInt8 → Bool) (byteBegin byteEnd : Nat) :
    Except EvalFault (List ByteWrite) := do
  let rows ← (List.range' byteBegin (byteEnd - byteBegin)).mapM fun byteIdx =>
    ((List.range 8).takeWhile fun bitIdx => byteIdx * 8 + bitIdx < c.row).mapM fun bitIdx => do
      let bits ← byteAt c.bitmap byteIdx
      let value ← c.get (byteIdx * 8 + bitIdx)
      .ok ⟨byteIdx, (· ||| bitOfBool (testBit bits bitIdx && cmp value) bitIdx)⟩
  .ok rows.flatten

def kernel (cmp : List UInt8 → Bool) (c : InnerStringColumn) : Except EvalFault (List UInt8) :=
  FilterThreadPool.run n sched (c.kernelTask cmp) ((c.row + 7) / 8)
    (List.replicate c.bitmap.length 0)

variable (c : InnerStringColumn) (rhs : List UInt8)

def less := c.kernel n sched (Comparable.less · rhs)
def greater := c.kernel n sched (Comparable.greater · rhs)
def lessEqual := c.kernel n sched (Comparable.lessEqual · rhs)
def greaterEqual := c.kernel n sched (Comparable.greaterEqual · rhs)
def equal := c.kernel n sched (Comparable.equal · rhs)
def notEqual := c.kernel n sched (Comparable.notEqual · rhs)

variable (likeMatch : List UInt8 → List UInt8 → Bool)

def like := c.kernel n sched (likeMatch · rhs)
def notLike := c.kernel n sched fun value => !likeMatch value rhs

end InnerStringColumn

/-! ## Evaluation on a table -/

/-- A double in a column, by its bits. -/
structure Fp64 where
  bits : UInt64

instance : Inhabited Fp64 := ⟨⟨0⟩⟩

instance : Comparable Fp64 :=
  ⟨fun x y => Double.less (.ofBits x.bits) (.ofBits y.bits),
    fun x y => Double.equal (.ofBits x.bits) (.ofBits y.bits)⟩

/-- `InnerColumnBase`. -/
inductive InnerColumnBase where
  | int32 (c : InnerColumn Int32)
  | int64 (c : InnerColumn Int64)
  | fp64 (c : InnerColumn Fp64)
  | varchar (c : InnerStringColumn)

namespace Literal

/-- `static_cast<int32_t>(std::get<int64_t>(value))`. -/
def getInt32 : Literal → Except EvalFault Int32
  | .int64 v => .ok v.toInt32
  | _ => .error .badVariantAccess

def getInt64 : Literal → Except EvalFault Int64
  | .int64 v => .ok v
  | _ => .error .badVariantAccess

def getFp64 : Literal → Except EvalFault Fp64
  | .fp64 bits => .ok ⟨bits⟩
  | _ => .error .badVariantAccess

def getString : Literal → Except EvalFault (List UInt8)
  | .varchar s => .ok s
  | _ => .error .badVariantAccess

end Literal

namespace Comparison

/-- The case of a fixed-width column. -/
def evalFixed {T : Type} [Comparable T] (column : InnerColumn T) (op : Op)
    (value : Except EvalFault T) : Except EvalFault (List UInt8) :=
  match op with
  | .isNull => bitmapNot n sched column.bitmap
  | .isNotNull => .ok column.bitmap
  | op => do
    let compValue ← value
    match op with
    | .eq => column.equal n sched compValue
    | .neq => column.notEqual n sched compValue
    | .lt => column.less n sched compValue
    | .gt => column.greater n sched compValue
    | .leq => column.lessEqual n sched compValue
    | .geq => column.greaterEqual n sched compValue
    | _ => .error .unreachable

variable (likeMatch : List UInt8 → List UInt8 → Bool)

/-- The case of a string column. -/
def evalVarchar (column : InnerStringColumn) (op : Op) (value : Except EvalFault (List UInt8)) :
    Except EvalFault (List UInt8) :=
  match op with
  | .isNull => bitmapNot n sched column.bitmap
  | .isNotNull => .ok column.bitmap
  | op => do
    let compValue ← value
    match op with
    | .eq => column.equal n sched compValue
    | .neq => column.notEqual n sched compValue
    | .lt => column.less n sched compValue
    | .gt => column.greater n sched compValue
    | .leq => column.lessEqual n sched compValue
    | .geq => column.greaterEqual n sched compValue
    | .like => column.like n sched compValue likeMatch
    | .notLike => column.notLike n sched compValue likeMatch
    | _ => .error .unreachable

/-- `Comparison::eval(table)` on its column. -/
def evalColumn (column : InnerColumnBase) (op : Op) (value : Literal) :
    Except EvalFault (List UInt8) :=
  match column with
  | .int32 c => evalFixed n sched c op value.getInt32
  | .int64 c => evalFixed n sched c op value.getInt64
  | .fp64 c => evalFixed n sched c op value.getFp64
  | .varchar c => evalVarchar n sched likeMatch c op value.getString

end Comparison

end Pool

/-- `Statement::eval(table)`. The order of the threads at a node of the tree is that of its path
from the root, `false` to the left. -/
def Statement.evalTable (n : Nat) (likeMatch : List UInt8 → List UInt8 → Bool)
    (table : List InnerColumnBase) :
    (sched : List Bool → List Nat) → Statement → Except EvalFault (List UInt8)
  | sched, .comparison column op value =>
    match table[column]? with
    | some c => Comparison.evalColumn n (sched []) likeMatch c op value
    | none => .error .outOfRange
  | sched, .and l r => do
    let lhs ← l.evalTable n likeMatch table fun path => sched (false :: path)
    let rhs ← r.evalTable n likeMatch table fun path => sched (true :: path)
    bitmapAnd n (sched []) lhs rhs
  | sched, .or l r => do
    let lhs ← l.evalTable n likeMatch table fun path => sched (false :: path)
    let rhs ← r.evalTable n likeMatch table fun path => sched (true :: path)
    bitmapOr n (sched []) lhs rhs
  | sched, .not child => do
    let bitmap ← child.evalTable n likeMatch table fun path => sched (false :: path)
    bitmapNot n (sched []) bitmap

/-! ## Writing the selected rows -/

namespace FromInner

/-- The rows below `rows` whose bit in `results` is set, put one after another. The count is that
of the rows put. -/
def selectRows {α σ : Type} (put : σ → Option α → σ) (bitmap : List UInt8)
    (get : Nat → Except EvalFault α) (results : List UInt8) (rows : Nat) (inserter : σ) :
    Except EvalFault (σ × Nat) :=
  (List.range rows).foldlM (fun st i => do
    let evalResult ← byteAt results (i / 8)
    if testBit evalResult (i % 8) then
      if ← isNotNull bitmap i then
        let value ← get i
        .ok (put st.1 (some value), st.2 + 1)
      else .ok (put st.1 none, st.2 + 1)
    else .ok st) (inserter, 0)

end FromInner

/-- `from_inner_to_column`: the pages written to the column and the number of rows. -/
def fromInnerToColumn (fresh : Nat → Page) (inner : InnerColumnBase) (results : List UInt8)
    (rows : Nat) : Except EvalFault (List Page × Nat) :=
  match inner with
  | .int32 c => fixed c.bitmap c.get
  | .int64 c => fixed c.bitmap c.get
  | .fp64 c => fixed c.bitmap fun i => do .ok (← c.get i).bits
  | .varchar c => do
    let (inserter, ret) ← FromInner.selectRows (StringInserter.put fresh) c.bitmap c.get results
      rows {}
    .ok ((inserter.finalize fresh).column.pages, ret)
where
  fixed {T : Type} [Pod T] (bitmap : List UInt8) (get : Nat → Except EvalFault T) :
      Except EvalFault (List Page × Nat) := do
    let (inserter, ret) ← FromInner.selectRows (ColumnInserter.put fresh) bitmap get results rows {}
    .ok ((inserter.finalize fresh).column.pages, ret)

end HashJoin
