import RustKernel.Foundations.Bytes
import RustKernel.Machine.Address

/-!
# Slices of a byte buffer

Checked slicing panics outside the buffer.  The readers of the boot image and
of ELF files also dereference pointers into the buffer without a check; such a
read outside the buffer is `Panic.rawRead` here.
-/

namespace RustKernel.Machine

open RustKernel.Foundations

/-- `&data[start..stop]`. -/
def slice (data : List UInt8) (start stop : Nat) :
    Except Panic (List UInt8) :=
  if start ≤ stop ∧ stop ≤ data.length then
    .ok (bytesAt data start (stop - start))
  else
    .error .sliceIndex

/-- `data[index]`. -/
def indexByte (data : List UInt8) (index : Nat) : Except Panic UInt8 :=
  match data[index]? with
  | some byte => .ok byte
  | none => .error .sliceIndex

/-- The bytes behind a reference made from a raw pointer. -/
def rawRead (data : List UInt8) (start length : Nat) :
    Except Panic (List UInt8) :=
  if start + length ≤ data.length then
    .ok (bytesAt data start length)
  else
    .error .rawRead

theorem slice_eq_ok
    {data bytes : List UInt8} {start stop : Nat} :
    slice data start stop = .ok bytes ↔
      (start ≤ stop ∧ stop ≤ data.length) ∧
        bytes = bytesAt data start (stop - start) := by
  by_cases within : start ≤ stop ∧ stop ≤ data.length
  · simp [slice, within, eq_comm]
  · simp [slice, within]

end RustKernel.Machine
