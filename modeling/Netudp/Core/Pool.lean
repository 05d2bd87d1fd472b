/-
The object pool (`src/core/pool.h`).

Elements of one type lie one after another in a block of memory.  Those that are free form
a list, whose links are in the first bytes of the elements themselves; an element that is
handed out is its owner's to write to.

The memory is that of the whole process, as bytes.  Pointers are stored with their low byte
first.  `destroy` and the moves of the pool itself are left out.
-/
import Netudp.Lib.LittleEndian
import Netudp.Lib.Memory

namespace Netudp

open Lib

/-- The element type of a pool, of which the sizes matter. -/
structure ElementType where
  /-- `sizeof(T)`. -/
  size : Nat
  /-- `sizeof(void*)`. -/
  ptrSize : Nat
  pos : 0 < ptrSize
  /-- The `static_assert`. -/
  fits : ptrSize ≤ size

/-- A block for so many elements, as `allocate` returns it: not at zero, and within the
addresses a pointer can hold. -/
structure Allocation (T : ElementType) (capacity : Nat) where
  base : Nat
  pos : 0 < base
  fits : base + capacity * T.size ≤ 256 ^ T.ptrSize

/-- `class Pool<T>`, with the memory it lies in. -/
structure Pool where
  memory : Int → UInt8
  storage : Nat := 0
  freeHead : Nat := 0
  capacity : Int := 0
  available : Int := 0

namespace Pool

variable (T : ElementType)

/-- `memset(p, 0, n)`. -/
def clearBytes (m : Int → UInt8) (p n : Nat) : Int → UInt8 := store m p n fun _ => 0

/-- `memcpy` of a pointer to `p`. -/
def writePointer (m : Int → UInt8) (p value : Nat) : Int → UInt8 :=
  store m p T.ptrSize ((leBytes T.ptrSize value).getD · 0)

/-- `memcpy` of a pointer from `p`. -/
def readPointer (m : Int → UInt8) (p : Nat) : Nat := leNat (load m p T.ptrSize)

/-- `&storage_[i]`. -/
def element (storage i : Nat) : Nat := storage + i * T.size

/-- The loop of `init` over its first `n` rounds: each element is made to point to the
next. -/
def linkElements (m : Int → UInt8) (storage : Nat) : Nat → Int → UInt8
  | 0 => m
  | n + 1 =>
    writePointer T (linkElements m storage n) (element T storage n) (element T storage (n + 1))

/-- What `init` makes of the block: all zero, each element pointing to the next, and the
last one to null. -/
def threadElements (m : Int → UInt8) (storage n : Nat) : Int → UInt8 :=
  let m := clearBytes m storage (T.size * n)
  let m := linkElements T m storage (n - 1)
  writePointer T m (element T storage (n - 1)) 0

/-- `init`, with what `allocate` returns. -/
def init (p : Pool) (capacity : Int) (allocated : Option (Allocation T capacity.toNat)) :
    Bool × Pool :=
  if capacity ≤ 0 ∨ p.storage ≠ 0 then (false, p)
  else
    let p := { p with capacity := capacity, available := capacity }
    match allocated with
    | none => (false, { p with storage := 0 })
    | some block =>
      (true, { p with
        memory := threadElements T p.memory block.base capacity.toNat
        storage := block.base
        freeHead := block.base })

/-- `acquire`; zero is `nullptr`. -/
def acquire (p : Pool) : Nat × Pool :=
  if p.freeHead = 0 then (0, p)
  else
    let next := readPointer T p.memory p.freeHead
    (p.freeHead, { p with
      freeHead := next
      memory := clearBytes p.memory p.freeHead T.ptrSize
      available := p.available - 1 })

/-- `release`. -/
def release (p : Pool) (address : Nat) : Pool :=
  if address = 0 then p
  else
    let m := clearBytes p.memory address T.size
    { p with
      memory := writePointer T m address p.freeHead
      freeHead := address
      available := p.available + 1 }

end Pool

end Netudp
