import RobotCar.Lib.Memory

namespace RobotCar
open Memory
set_option autoImplicit true

def configTOTAL_HEAP_SIZE : UInt32 := 102400

def portBYTE_ALIGNMENT : UInt32 := 8

def portBYTE_ALIGNMENT_MASK : UInt32 := 7

def xHeapStructSize : UInt32 := 8

def heapMINIMUM_BLOCK_SIZE : UInt32 := xHeapStructSize <<< 1

/-- Where the linker has put `ucHeap` and `xStart`: two objects that do not overlap. -/
structure HeapLayout where
  ucHeap : UInt32
  xStart : UInt32
  nonnull : 0 < ucHeap.toNat
  fits : ucHeap.toNat + 102400 < 2 ^ 32
  apart : xStart.toNat + 8 ≤ ucHeap.toNat ∨ ucHeap.toNat + 102400 ≤ xStart.toNat

/-- The variables of the allocator; `xStart` and `ucHeap` are in `mem`. -/
structure MicroHeap where
  mem : Mem
  pxEnd : UInt32 := 0
  xFreeBytesRemaining : UInt32 := 0
  xMinimumEverFreeBytesRemaining : UInt32 := 0
  xBlockAllocatedBit : UInt32 := 0
  uxSchedulerSuspended : UInt32 := 0

/-! ### The fields of a `BlockLink_t` -/

def pxNextFreeBlock (m : Mem) (p : UInt32) : UInt32 := load32 m p.toNat

def xBlockSize (m : Mem) (p : UInt32) : UInt32 := load32 m (p.toNat + 4)

def set_pxNextFreeBlock (m : Mem) (p v : UInt32) : Mem := store32 m p.toNat v

def set_xBlockSize (m : Mem) (p v : UInt32) : Mem := store32 m (p.toNat + 4) v

/-! ### The free list

A loop that does not end, a failed assertion and the `while(1)` of a failed allocation have no
result. -/

/-- The loop of `prvInsertBlockIntoFreeList`. -/
def prvInsertBlockIntoFreeList_loop (m : Mem) (pxBlockToInsert : UInt32) :
    Nat → UInt32 → Option UInt32
  | 0, _ => none
  | fuel + 1, pxIterator =>
    if pxNextFreeBlock m pxIterator < pxBlockToInsert then
      prvInsertBlockIntoFreeList_loop m pxBlockToInsert fuel (pxNextFreeBlock m pxIterator)
    else some pxIterator

/-- The block in front of the new one is extended, when they are adjacent. -/
def joinBefore (m : Mem) (pxIterator pxBlockToInsert : UInt32) : Mem × UInt32 :=
  if pxIterator + xBlockSize m pxIterator = pxBlockToInsert then
    (set_xBlockSize m pxIterator (xBlockSize m pxIterator + xBlockSize m pxBlockToInsert),
      pxIterator)
  else (m, pxBlockToInsert)

/-- The new block is extended by the one behind it, when they are adjacent. -/
def joinBehind (m : Mem) (pxEnd pxIterator pxBlockToInsert : UInt32) : Mem :=
  if pxBlockToInsert + xBlockSize m pxBlockToInsert = pxNextFreeBlock m pxIterator then
    if pxNextFreeBlock m pxIterator ≠ pxEnd then
      let m := set_xBlockSize m pxBlockToInsert
        (xBlockSize m pxBlockToInsert + xBlockSize m (pxNextFreeBlock m pxIterator))
      set_pxNextFreeBlock m pxBlockToInsert (pxNextFreeBlock m (pxNextFreeBlock m pxIterator))
    else set_pxNextFreeBlock m pxBlockToInsert pxEnd
  else set_pxNextFreeBlock m pxBlockToInsert (pxNextFreeBlock m pxIterator)

def prvInsertBlockIntoFreeList (L : HeapLayout) (pxEnd pxBlockToInsert : UInt32) (m : Mem) :
    Option Mem := do
  let pxIterator ←
    prvInsertBlockIntoFreeList_loop m pxBlockToInsert configTOTAL_HEAP_SIZE.toNat L.xStart
  let (m, pxBlockToInsert) := joinBefore m pxIterator pxBlockToInsert
  let m := joinBehind m pxEnd pxIterator pxBlockToInsert
  if pxIterator ≠ pxBlockToInsert then some (set_pxNextFreeBlock m pxIterator pxBlockToInsert)
  else some m

/-- The first aligned address of `ucHeap`, and the bytes from there on. -/
def alignedHeap (L : HeapLayout) : UInt32 × UInt32 :=
  if L.ucHeap &&& portBYTE_ALIGNMENT_MASK ≠ 0 then
    let uxAddress := (L.ucHeap + (portBYTE_ALIGNMENT - 1)) &&& ~~~portBYTE_ALIGNMENT_MASK
    (uxAddress, configTOTAL_HEAP_SIZE - (uxAddress - L.ucHeap))
  else (L.ucHeap, configTOTAL_HEAP_SIZE)

def prvHeapInit (L : HeapLayout) (h : MicroHeap) : MicroHeap :=
  let (uxAddress, xTotalHeapSize) := alignedHeap L
  let pucAlignedHeap := uxAddress
  let m := set_pxNextFreeBlock h.mem L.xStart pucAlignedHeap
  let m := set_xBlockSize m L.xStart 0
  let uxAddress :=
    (pucAlignedHeap + xTotalHeapSize - xHeapStructSize) &&& ~~~portBYTE_ALIGNMENT_MASK
  let pxEnd := uxAddress
  let m := set_xBlockSize m pxEnd 0
  let m := set_pxNextFreeBlock m pxEnd 0
  let pxFirstFreeBlock := pucAlignedHeap
  let m := set_xBlockSize m pxFirstFreeBlock (uxAddress - pxFirstFreeBlock)
  let m := set_pxNextFreeBlock m pxFirstFreeBlock pxEnd
  { h with
    mem := m
    pxEnd := pxEnd
    xMinimumEverFreeBytesRemaining := xBlockSize m pxFirstFreeBlock
    xFreeBytesRemaining := xBlockSize m pxFirstFreeBlock
    xBlockAllocatedBit := (1 : UInt32) <<< 31 }

/-! ### Allocation and release -/

def vTaskSuspendAll (h : MicroHeap) : MicroHeap :=
  { h with uxSchedulerSuspended := h.uxSchedulerSuspended + 1 }

def xTaskResumeAll (h : MicroHeap) : MicroHeap :=
  { h with uxSchedulerSuspended := h.uxSchedulerSuspended - 1 }

/-- The size of the block for a request: with its header, and rounded up. -/
def wantedSize (xWantedSize : UInt32) : UInt32 :=
  if xWantedSize > 0 then
    let xWantedSize := xWantedSize + xHeapStructSize
    if xWantedSize &&& portBYTE_ALIGNMENT_MASK ≠ 0 then
      xWantedSize + (portBYTE_ALIGNMENT - (xWantedSize &&& portBYTE_ALIGNMENT_MASK))
    else xWantedSize
  else xWantedSize

/-- The search for the first block that is large enough. -/
def pvPortMallocMicroROS_loop (m : Mem) (xWantedSize : UInt32) :
    Nat → UInt32 → UInt32 → Option (UInt32 × UInt32)
  | 0, _, _ => none
  | fuel + 1, pxPreviousBlock, pxBlock =>
    if xBlockSize m pxBlock < xWantedSize ∧ pxNextFreeBlock m pxBlock ≠ 0 then
      pvPortMallocMicroROS_loop m xWantedSize fuel pxBlock (pxNextFreeBlock m pxBlock)
    else some (pxPreviousBlock, pxBlock)

/-- What is left of a block goes back to the free list, if it is large enough. -/
def splitBlock (L : HeapLayout) (pxEnd pxBlock xWantedSize : UInt32) (m : Mem) : Option Mem :=
  if xBlockSize m pxBlock - xWantedSize > heapMINIMUM_BLOCK_SIZE then
    let pxNewBlockLink := pxBlock + xWantedSize
    -- `configASSERT`
    if pxNewBlockLink &&& portBYTE_ALIGNMENT_MASK ≠ 0 then none
    else
      let m := set_xBlockSize m pxNewBlockLink (xBlockSize m pxBlock - xWantedSize)
      let m := set_xBlockSize m pxBlock xWantedSize
      prvInsertBlockIntoFreeList L pxEnd pxNewBlockLink m
  else some m

/-- The block is taken out of the list and marked. -/
def takeBlock (L : HeapLayout) (h : MicroHeap) (pxPreviousBlock pxBlock xWantedSize : UInt32) :
    Option (UInt32 × MicroHeap) := do
  let pvReturn := pxNextFreeBlock h.mem pxPreviousBlock + xHeapStructSize
  let m := set_pxNextFreeBlock h.mem pxPreviousBlock (pxNextFreeBlock h.mem pxBlock)
  let m ← splitBlock L h.pxEnd pxBlock xWantedSize m
  let xFreeBytesRemaining := h.xFreeBytesRemaining - xBlockSize m pxBlock
  let xMinimumEverFreeBytesRemaining :=
    if xFreeBytesRemaining < h.xMinimumEverFreeBytesRemaining then xFreeBytesRemaining
    else h.xMinimumEverFreeBytesRemaining
  let m := set_xBlockSize m pxBlock (xBlockSize m pxBlock ||| h.xBlockAllocatedBit)
  let m := set_pxNextFreeBlock m pxBlock 0
  some (pvReturn,
    { h with
      mem := m
      xFreeBytesRemaining := xFreeBytesRemaining
      xMinimumEverFreeBytesRemaining := xMinimumEverFreeBytesRemaining })

/-- What `pvPortMallocMicroROS` does while the scheduler is suspended. -/
def allocate (L : HeapLayout) (xWantedSize : UInt32) (h : MicroHeap) :
    Option (UInt32 × MicroHeap) := do
  let h := if h.pxEnd = 0 then prvHeapInit L h else h
  if xWantedSize &&& h.xBlockAllocatedBit = 0 then
    let xWantedSize := wantedSize xWantedSize
    -- `configASSERT`
    if xWantedSize &&& portBYTE_ALIGNMENT_MASK ≠ 0 then none
    else if xWantedSize > 0 ∧ xWantedSize ≤ h.xFreeBytesRemaining then
      let (pxPreviousBlock, pxBlock) ← pvPortMallocMicroROS_loop h.mem xWantedSize
        configTOTAL_HEAP_SIZE.toNat L.xStart (pxNextFreeBlock h.mem L.xStart)
      if pxBlock ≠ h.pxEnd then takeBlock L h pxPreviousBlock pxBlock xWantedSize
      else some (0, h)
    else some (0, h)
  else some (0, h)

def pvPortMallocMicroROS (L : HeapLayout) (xWantedSize : UInt32) (h : MicroHeap) :
    Option (UInt32 × MicroHeap) := do
  let (pvReturn, h) ← allocate L xWantedSize (vTaskSuspendAll h)
  let h := xTaskResumeAll h
  -- `configASSERT`, and `while(1)`
  if pvReturn &&& portBYTE_ALIGNMENT_MASK ≠ 0 then none
  else if pvReturn = 0 then none
  else some (pvReturn, h)

def vPortFreeMicroROS (L : HeapLayout) (pv : UInt32) (h : MicroHeap) : Option MicroHeap :=
  if pv ≠ 0 then
    let pxLink := pv - xHeapStructSize
    -- two calls of `configASSERT`
    if xBlockSize h.mem pxLink &&& h.xBlockAllocatedBit = 0 then none
    else if pxNextFreeBlock h.mem pxLink ≠ 0 then none
    else do
      let m := set_xBlockSize h.mem pxLink (xBlockSize h.mem pxLink &&& ~~~h.xBlockAllocatedBit)
      let h := vTaskSuspendAll { h with mem := m }
      let xFreeBytesRemaining := h.xFreeBytesRemaining + xBlockSize h.mem pxLink
      let m ← prvInsertBlockIntoFreeList L h.pxEnd pxLink h.mem
      some (xTaskResumeAll { h with mem := m, xFreeBytesRemaining := xFreeBytesRemaining })
  else some h

/-- The size of the block that holds a payload. -/
def getBlockSize (h : MicroHeap) (pv : UInt32) : UInt32 :=
  xBlockSize h.mem (pv - xHeapStructSize) &&& ~~~h.xBlockAllocatedBit

end RobotCar
