import Zipc.Slot

/-! # The window of a buffer

The operations that move the data window of an owned buffer inside its slot, and its
limits. Every one of them tests ownership itself and answers the buffer as it is
afterwards; `uint32_t` sums and differences wrap. Sources of copied bytes are never null.
-/

namespace Zipc

open Atomic

/-- `zipc_buffer_set_region`. -/
def bufferSetRegion (buffer : Option View) (offset length : Nat) :
    Prog (Status × Option View) := do
  let owned ← bufferOwned buffer
  match buffer, owned with
  | some v, true =>
      if offset > v.capacity ∨ length > v.capacity - offset then pure (.regionOverflow, some v)
      else do
        write v.slotId (.regionOffset offset)
        write v.slotId (.regionLength length)
        pure (.ok, some { v with data := offset, length })
  | _, _ => pure (.invalidBuffer, buffer)

/-- `zipc_buffer_set_limits`. -/
def bufferSetLimits (buffer : Option View) (hopLimit absoluteDeadlineNs : Nat) : Prog Status := do
  let owned ← bufferOwned buffer
  match buffer, owned with
  | some v, true => do
      write v.slotId (.hopLimit (if hopLimit ≠ 0 then hopLimit else hopLimitUnlimited))
      write v.slotId
        (.deadlineNs (if absoluteDeadlineNs ≠ 0 then absoluteDeadlineNs else deadlineNone))
      pure .ok
  | _, _ => pure .invalidBuffer

/-- `zipc_buffer_headroom`. -/
def bufferHeadroom (buffer : Option View) : Prog Nat := do
  let owned ← bufferOwned buffer
  match buffer, owned with
  | some v, true => read v.slotId (·.region.offset)
  | _, _ => pure 0

/-- `zipc_buffer_tailroom`. -/
def bufferTailroom (buffer : Option View) : Prog Nat := do
  let owned ← bufferOwned buffer
  match buffer, owned with
  | some v, true => do
      let offset ← read v.slotId (·.region.offset)
      pure (if offset > v.capacity ∨ v.length > v.capacity - offset then 0
        else v.capacity - offset - v.length)
  | _, _ => pure 0

/-- `zipc_buffer_resize`. -/
def bufferResize (buffer : Option View) (size : Nat) : Prog (Status × Option View) := do
  let owned ← bufferOwned buffer
  match buffer, owned with
  | some v, true =>
      if size ≥ u32 then pure (.regionOverflow, some v)
      else do
        let headroom ← bufferHeadroom (some v)
        let tailroom ← bufferTailroom (some v)
        if size > (headroom + tailroom + v.length) % u32 then pure (.regionOverflow, some v)
        else do
          let offset ← read v.slotId (·.region.offset)
          if size > sub32 v.capacity offset then pure (.regionOverflow, some v)
          else bufferSetRegion (some v) offset size
  | _, _ => pure (.invalidBuffer, buffer)

/-- `zipc_buffer_append`. -/
def bufferAppend (buffer : Option View) (bytes : List Nat) : Prog (Status × Option View) := do
  let owned ← bufferOwned buffer
  match buffer, owned with
  | some v, true => do
      let tailroom ← bufferTailroom (some v)
      if bytes.length > tailroom then pure (.regionOverflow, some v)
      else do
        .lift (.copyIn v.slotId (v.data + v.length) bytes)
        let offset ← read v.slotId (·.region.offset)
        bufferSetRegion (some v) offset ((v.length + bytes.length) % u32)
  | _, _ => pure (.invalidBuffer, buffer)

/-- `zipc_buffer_prepend`. -/
def bufferPrepend (buffer : Option View) (bytes : List Nat) : Prog (Status × Option View) := do
  let owned ← bufferOwned buffer
  match buffer, owned with
  | some v, true => do
      let headroom ← bufferHeadroom (some v)
      if bytes.length > headroom then pure (.regionOverflow, some v)
      else do
        let offset ← read v.slotId (·.region.offset)
        .lift (.copyIn v.slotId (sub32 offset bytes.length) bytes)
        bufferSetRegion (some v) (sub32 offset bytes.length) ((v.length + bytes.length) % u32)
  | _, _ => pure (.invalidBuffer, buffer)

/-- `zipc_buffer_trim_front`. -/
def bufferTrimFront (buffer : Option View) (length : Nat) : Prog (Status × Option View) := do
  let owned ← bufferOwned buffer
  match buffer, owned with
  | some v, true =>
      if length > v.length then pure (.regionOverflow, some v)
      else do
        let offset ← read v.slotId (·.region.offset)
        bufferSetRegion (some v) ((offset + length) % u32) (v.length - length)
  | _, _ => pure (.invalidBuffer, buffer)

/-- `zipc_buffer_trim_back`. -/
def bufferTrimBack (buffer : Option View) (length : Nat) : Prog (Status × Option View) := do
  let owned ← bufferOwned buffer
  match buffer, owned with
  | some v, true =>
      if length > v.length then pure (.regionOverflow, some v)
      else do
        let offset ← read v.slotId (·.region.offset)
        bufferSetRegion (some v) offset (v.length - length)
  | _, _ => pure (.invalidBuffer, buffer)

/-! ## Accessors

A pointer into the payload is an offset from the slot's base; `none` is a null pointer. -/

/-- `zipc_buffer_is_valid`. -/
def bufferIsValid (buffer : Option View) : Prog Bool := bufferOwned buffer

/-- `zipc_buffer_data`. -/
def bufferData (buffer : Option View) : Prog (Option Nat) := do
  let owned ← bufferOwned buffer
  match buffer, owned with
  | some v, true => pure (some v.data)
  | _, _ => pure none

/-- `zipc_buffer_const_data`. -/
def bufferConstData (buffer : Option View) : Prog (Option Nat) := bufferData buffer

/-- `zipc_buffer_size`. -/
def bufferSize (buffer : Option View) : Prog Nat := do
  let owned ← bufferOwned buffer
  match buffer, owned with
  | some v, true => pure v.length
  | _, _ => pure 0

/-- `zipc_buffer_at`. -/
def bufferAt (buffer : Option View) (offset length : Nat) : Prog (Option Nat) := do
  let owned ← bufferOwned buffer
  match buffer, owned with
  | some v, true =>
      if offset > v.capacity ∨ length > v.capacity - offset then pure none
      else pure (some offset)
  | _, _ => pure none

end Zipc
