import Zipc.Words
import Zipc.Lib.Tracked

/-! # Pool geometry

The checks that `zipc_pool_format` and `zipc_pool_attach` make on a configuration, and the
header that one writes and the other reads. `size_t` has 32 or 64 bits; every size and
offset is computed with wrapping operations that remember whether they wrapped. What
formatting does to the slot controls and counters behind the header is `Zipc.poolFormat`
of the memory model.
-/

namespace Zipc.Geometry

open Tracked

/-- The width of `size_t` and `uintptr_t`. -/
inductive SizeT where
  | bits32 | bits64
  deriving Repr, DecidableEq

def SizeT.bits : SizeT → Nat
  | .bits32 => 32
  | .bits64 => 64

/-- `SIZE_MAX` and `UINTPTR_MAX`. -/
def SizeT.max (t : SizeT) : Nat := 2 ^ t.bits - 1

/-- What `zipc_platform_memory_*` report of a memory object. -/
structure PlatformMemory (t : SizeT) where
  base : Nat
  size : Nat
  capabilities : Nat
  pageSize : Nat
  base_fits : base < 2 ^ t.bits := by decide
  size_fits : size < 2 ^ t.bits := by decide
  page_fits : pageSize < 2 ^ t.bits := by decide
  page_power : pageSize = 0 ∨ pageSize.isPowerOfTwo

/-- The memory objects behind their pointers, and whether the system grants `mprotect`
for a range of one. -/
structure Platform (t : SizeT) where
  memory : Nat → PlatformMemory t
  mprotect : Nat → Nat → Nat → Bool

def capCpuRead : Nat := 1
def capCpuWrite : Nat := 2
def capAtomic32 : Nat := 4
def capAtomic64 : Nat := 8
def capPageProtect : Nat := 256

def flagGuardPages : Nat := 1
def flagStrictOwnership : Nat := 2

/-- `zipc_pool_config_t`; memory objects are pointers. -/
structure PoolConfig (t : SizeT) where
  controlMemory : Option Nat
  controlOffset : Nat := 0
  payloadMemory : Option Nat := none
  payloadOffset : Nat := 0
  slotCount : Nat
  slotCapacity : Nat
  slotStride : Nat := 0
  payloadAlignment : Nat
  flags : Nat := 0
  control_fits : controlOffset < 2 ^ t.bits := by decide
  payload_fits : payloadOffset < 2 ^ t.bits := by decide
  words_fit : slotCount < u32 ∧ slotCapacity < u32 ∧ slotStride < u32 ∧
    payloadAlignment < u32 ∧ flags < u32 := by decide

/-- `sizeof` and `_Alignof` of `zipc_pool_header_t` and `zipc_slot_control_t`. -/
structure Layout where
  headerSize : Nat
  headerAlign : Nat
  slotSize : Nat
  slotAlign : Nat
  header_power : headerAlign.isPowerOfTwo
  slot_power : slotAlign.isPowerOfTwo
  header_whole : headerAlign ∣ headerSize
  slot_whole : slotAlign ∣ slotSize
  header_pos : 0 < headerSize := by decide
  slot_pos : 0 < slotSize := by decide
  header_small : headerSize < 65536 := by decide
  slot_small : slotSize < 65536 := by decide

/-- The fields of `zipc_pool_header_t` that describe the geometry. -/
structure PoolHeader where
  magic : Nat
  abiVersion : Nat
  headerSize : Nat
  slotCount : Nat
  slotCapacity : Nat
  slotStride : Nat
  controlsOffset : Nat
  payloadAlignment : Nat
  deriving Repr, DecidableEq

def poolMagic : Nat := 0x5A495043
def poolAbiVersion : Nat := 3

variable {t : SizeT}

/-! ## Alignment and ranges -/

def isPowerOfTwo (t : SizeT) (value : Nat) : Tracked Bool :=
  both (test (value ≠ 0)) do
    let below ← sub t.bits value 1
    pure (value &&& below = 0)

def alignUpChecked (t : SizeT) (value alignment : Nat) : Tracked (Option Nat) := do
  if (← isPowerOfTwo t alignment) = false then pure none
  else do
    let low ← sub t.bits alignment 1
    if value > (← sub t.bits t.max low) then pure none
    else do
      let raised ← sub t.bits (← add t.bits value alignment) 1
      pure (some (raised &&& (t.max - low)))

section Memory

variable (memory : PlatformMemory t) (offset : Nat)

def memoryAddressAligned (alignment : Nat) : Tracked Bool :=
  both (test (memory.base ≠ 0)) <|
  both (isPowerOfTwo t alignment) <|
  both (do pure (offset ≤ (← sub t.bits t.max memory.base))) do
    let address ← add t.bits memory.base offset
    pure (address &&& (← sub t.bits alignment 1) = 0)

def memoryRangeFits (length : Nat) : Tracked Bool :=
  both (test (memory.base ≠ 0)) <|
  both (test (offset ≤ memory.size)) <|
  both (do pure (length ≤ (← sub t.bits memory.size offset))) <|
  both (do pure (offset ≤ (← sub t.bits t.max memory.base))) do
    let start ← add t.bits memory.base offset
    pure (length ≤ (← sub t.bits t.max start))

end Memory

variable (p : Platform t) (config : PoolConfig t)

/-- `pool_ranges_valid` for the control memory `control` and the payload memory `payload`. -/
def poolRangesValid (control payload controlRequired payloadRequired : Nat) : Tracked Bool :=
  both (memoryRangeFits (p.memory control) config.controlOffset controlRequired) <|
  both (memoryRangeFits (p.memory payload) config.payloadOffset payloadRequired) do
    if control = payload then do
      let controlEnd ← add t.bits config.controlOffset controlRequired
      let payloadEnd ← add t.bits config.payloadOffset payloadRequired
      pure (!(config.controlOffset < payloadEnd && config.payloadOffset < controlEnd))
    else pure true

/-! ## Normalisation -/

def PoolConfig.guards : Bool := config.flags &&& flagGuardPages ≠ 0

def PoolConfig.strict : Bool := config.flags &&& flagStrictOwnership ≠ 0

/-- What both protection flags ask of the payload memory, its offset and the capacity. -/
def pagesProtectable (memory : PlatformMemory t) : Tracked Bool :=
  both (test (memory.pageSize ≠ 0 ∧ memory.pageSize < u32 ∧
    memory.capabilities &&& capPageProtect ≠ 0 ∧ config.payloadOffset % memory.pageSize = 0)) <|
  both (memoryAddressAligned memory config.payloadOffset memory.pageSize) <|
  test (config.slotCapacity % memory.pageSize = 0)

/-- The stride of the slots: with guard pages one page more than the capacity, else what
the caller chose, else the capacity rounded up. -/
def chooseStride (memory : PlatformMemory t) : Tracked (Except Status Nat) := do
  if config.guards then
    if (← pagesProtectable config memory) = false then pure (.error .unsupportedMemory)
    else if config.slotCapacity > (← sub 32 (u32 - 1) (← narrow 32 memory.pageSize)) then
      pure (.error .unsupportedMemory)
    else do
      let guardedStride ← add 32 config.slotCapacity (← narrow 32 memory.pageSize)
      if config.slotStride ≠ 0 ∧ config.slotStride ≠ guardedStride then
        pure (.error .invalidArgument)
      else pure (.ok guardedStride)
  else if config.slotStride ≠ 0 then pure (.ok config.slotStride)
  else
    match ← alignUpChecked t config.slotCapacity config.payloadAlignment with
    | none => pure (.error .invalidArgument)
    | some aligned =>
        if aligned ≥ u32 then pure (.error .invalidArgument)
        else do pure (.ok (← narrow 32 aligned))

/-- Whether every capability of the mask is there. -/
def PlatformMemory.has (memory : PlatformMemory t) (mask : Nat) : Bool :=
  memory.capabilities &&& mask = mask

/-- `normalize_config` with a control memory: the payload memory and the stride. -/
def normalizeConfig (layout : Layout) (control payload : Nat) : Tracked (Except Status Nat) := do
  if config.slotCount = 0 ∨ config.slotCapacity = 0 then pure (.error .invalidArgument)
  else if (← isPowerOfTwo t config.payloadAlignment) = false ∨
      config.flags &&& (u32 - 1 - (flagGuardPages ||| flagStrictOwnership)) ≠ 0 then
    pure (.error .invalidArgument)
  else if config.controlOffset % layout.headerAlign ≠ 0 then pure (.error .invalidArgument)
  else if (← memoryAddressAligned (p.memory control) config.controlOffset
      layout.headerAlign) = false then pure (.error .invalidArgument)
  else if config.payloadOffset % config.payloadAlignment ≠ 0 then pure (.error .invalidArgument)
  else if (← memoryAddressAligned (p.memory payload) config.payloadOffset
      config.payloadAlignment) = false then pure (.error .invalidArgument)
  else if (← both (test config.strict) (do
      pure (!(← pagesProtectable config (p.memory payload))))) = true then
    pure (.error .unsupportedMemory)
  else
    match ← chooseStride config (p.memory payload) with
    | .error status => pure (.error status)
    | .ok stride =>
        if stride < config.slotCapacity ∨ stride % config.payloadAlignment ≠ 0 then
          pure (.error .invalidArgument)
        else if (p.memory control).has (capCpuRead ||| capCpuWrite ||| capAtomic32 |||
            capAtomic64) = false then pure (.error .unsupportedMemory)
        else if (p.memory payload).has (capCpuRead ||| capCpuWrite) = false then
          pure (.error .unsupportedMemory)
        else pure (.ok stride)

/-! ## Page protection -/

/-- `zipc_platform_memory_protect_none` of the Linux platform. -/
def protectNone (memory offset length : Nat) : Tracked Status := do
  if length = 0 ∨ (p.memory memory).capabilities &&& capPageProtect = 0 then
    pure .unsupportedMemory
  else if (p.memory memory).pageSize = 0 ∨ offset % (p.memory memory).pageSize ≠ 0 ∨
      length % (p.memory memory).pageSize ≠ 0 ∨ offset > (p.memory memory).size then
    pure .invalidArgument
  else if length > (← sub t.bits (p.memory memory).size offset) then pure .invalidArgument
  else if p.mprotect memory offset length then pure .ok
  else pure .platform

/-- Protects a range of every slot from the `i`-th on, `left` of them; it starts `skip`
bytes into the slot and stops at the first failure. -/
def protectEach (payload stride skip length : Nat) : Nat → Nat → Tracked Status
  | 0, _ => pure .ok
  | left + 1, i => do
      let slot ← add t.bits config.payloadOffset (← mul t.bits i stride)
      let start ← add t.bits slot skip
      match ← protectNone p payload start length with
      | .ok => protectEach payload stride skip length left (i + 1)
      | status => pure status

def applyGuardPages (payload stride : Nat) : Tracked Status :=
  if config.guards = false then pure .ok
  else if (p.memory payload).pageSize = 0 then pure .unsupportedMemory
  else
    protectEach p config payload stride config.slotCapacity (p.memory payload).pageSize
      config.slotCount 0

/-! ## Required sizes -/

def poolRequiredControlSize (t : SizeT) (layout : Layout) (slotCount : Nat) : Tracked Nat := do
  if slotCount = 0 then pure 0
  else
    match ← alignUpChecked t layout.headerSize layout.slotAlign with
    | none => pure 0
    | some controlsOffset =>
        if slotCount > (← sub t.bits t.max controlsOffset) / layout.slotSize then pure 0
        else do add t.bits controlsOffset (← mul t.bits slotCount layout.slotSize)

def poolRequiredPayloadSize (t : SizeT) (slotCount slotCapacity slotStride payloadAlignment : Nat) :
    Tracked Nat := do
  if slotCount = 0 ∨ slotCapacity = 0 then pure 0
  else if (← isPowerOfTwo t payloadAlignment) = false then pure 0
  else do
    let chosen ←
      if slotStride ≠ 0 then pure (some slotStride)
      else do
        match ← alignUpChecked t slotCapacity payloadAlignment with
        | none => pure none
        | some aligned =>
            if aligned ≥ u32 then pure none else do pure (some (← narrow 32 aligned))
    match chosen with
    | none => pure 0
    | some stride =>
        if stride < slotCapacity ∨ stride % payloadAlignment ≠ 0 ∨ slotCount > t.max / stride then
          pure 0
        else mul t.bits slotCount stride

/-! ## Format and attach -/

/-- Where the slot controls start, when it fits a `uint32_t`, no address wraps and the
address is aligned for them. -/
def controlsPlace (layout : Layout) (control : Nat) : Tracked (Option Nat) := do
  match ← alignUpChecked t layout.headerSize layout.slotAlign with
  | none => pure none
  | some controlsOffset =>
      if controlsOffset ≥ u32 then pure none
      else if config.controlOffset > (← sub t.bits t.max controlsOffset) then pure none
      else do
        let place ← add t.bits config.controlOffset controlsOffset
        if (← memoryAddressAligned (p.memory control) place layout.slotAlign) = false then pure none
        else pure (some controlsOffset)

/-- The header before `controls_offset` and `payload_alignment` are set. -/
def formattedHeader (layout : Layout) (stride : Nat) : PoolHeader where
  magic := poolMagic
  abiVersion := poolAbiVersion
  headerSize := layout.headerSize % 65536
  slotCount := config.slotCount
  slotCapacity := config.slotCapacity
  slotStride := stride
  controlsOffset := 0
  payloadAlignment := 0

/-- The header part of `zipc_pool_format`. -/
def poolFormat (layout : Layout) (header : PoolHeader) : Tracked (Status × PoolHeader) := do
  match config.controlMemory with
  | none => pure (.invalidArgument, header)
  | some control => do
      let payload := config.payloadMemory.getD control
      match ← normalizeConfig p config layout control payload with
      | .error status => pure (status, header)
      | .ok stride => do
          let controlRequired ← poolRequiredControlSize t layout config.slotCount
          let payloadRequired ← poolRequiredPayloadSize t config.slotCount config.slotCapacity
            stride config.payloadAlignment
          if controlRequired = 0 ∨ payloadRequired = 0 then pure (.invalidArgument, header)
          else if (← poolRangesValid p config control payload controlRequired
              payloadRequired) = false then pure (.invalidArgument, header)
          else
            match ← applyGuardPages p config payload stride with
            | .ok => do
                let written := formattedHeader config layout stride
                match ← controlsPlace p config layout control with
                | none => pure (.invalidArgument, written)
                | some controlsOffset => do
                    let offset ← narrow 32 controlsOffset
                    pure (.ok, { written with
                      controlsOffset := offset, payloadAlignment := config.payloadAlignment })
            | status => pure (status, header)

/-- The fields of the header that `zipc_pool_attach` compares first. -/
def headerMatches (layout : Layout) (stride : Nat) (header : PoolHeader) : Bool :=
  header.magic = poolMagic && header.abiVersion = poolAbiVersion &&
    header.headerSize = layout.headerSize && header.slotCount = config.slotCount &&
    header.slotCapacity = config.slotCapacity && header.slotStride = stride &&
    header.payloadAlignment = config.payloadAlignment

/-- `zipc_pool_attach` with a pool to fill in. -/
def poolAttach (layout : Layout) (header : PoolHeader) : Tracked Status := do
  match config.controlMemory with
  | none => pure .invalidArgument
  | some control => do
      let payload := config.payloadMemory.getD control
      match ← normalizeConfig p config layout control payload with
      | .error status => pure status
      | .ok stride =>
          if config.controlOffset > (p.memory control).size then pure .invalidPool
          else if layout.headerSize > (← sub t.bits (p.memory control).size
              config.controlOffset) then pure .invalidPool
          else if headerMatches config layout stride header = false then pure .invalidPool
          else if (← controlsPlace p config layout control) ≠ some header.controlsOffset ∨
              header.controlsOffset % layout.slotAlign ≠ 0 then pure .invalidPool
          else do
            let controlRequired ← poolRequiredControlSize t layout header.slotCount
            let payloadRequired ← poolRequiredPayloadSize t header.slotCount header.slotCapacity
              header.slotStride header.payloadAlignment
            if controlRequired = 0 ∨ payloadRequired = 0 ∨
                header.controlsOffset > controlRequired then pure .invalidPool
            else if header.slotCount > (← sub t.bits controlRequired header.controlsOffset) /
                layout.slotSize then pure .invalidPool
            else if (← poolRangesValid p config control payload controlRequired
                payloadRequired) = false then pure .invalidPool
            else
              match ← applyGuardPages p config payload stride with
              | .ok =>
                  if config.strict then
                    protectEach p config payload header.slotStride 0 header.slotCapacity
                      header.slotCount 0
                  else pure .ok
              | status => pure status

end Zipc.Geometry
