/-
# Descriptor chains

What `collect_chain` of `vmm-virtio/src/queue.rs` hands to a device: the
segments of a chain, each an address and a length with its direction. The
queue itself is in `Virtio.Pci.Queue`.
-/
import Mathlib

namespace Rshyve.Virtio

/-- A buffer segment within a descriptor chain, by direction. -/
inductive ChainBuf where
  | readable (addr len : Nat)
  | writable (addr len : Nat)
  deriving DecidableEq, Repr

namespace ChainBuf

def addr : ChainBuf → Nat
  | readable a _ => a
  | writable a _ => a

def len : ChainBuf → Nat
  | readable _ n => n
  | writable _ n => n

def isWritable : ChainBuf → Bool
  | writable .. => true
  | readable .. => false

end ChainBuf

end Rshyve.Virtio
