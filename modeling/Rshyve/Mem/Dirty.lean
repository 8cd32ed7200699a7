/-
# The dirty-bitmap walk

`VmmHdl::track_dirty_pages` in `vmm-core/src/hdl.rs`: the kernel reads and
clears the dirty bits of at most one gibibyte per call, so a region is
walked in chunks and each chunk's bits land in its own slice of the bitmap.
Each chunk is one call and the guest runs between two of them.
-/
import Rshyve.Mem.PhysMap

namespace Rshyve.Mem

/-- Most guest memory one dirty-bitmap call may cover (`DIRTY_CHUNK`). -/
def dirtyChunk : Nat := 8 * pageSize * 8 * pageSize

/-- One call's worth of a dirty-bitmap walk: the guest range, and the bytes
of the bitmap it fills. -/
structure DirtyChunk where
  gpa : Nat
  len : Nat
  bitOff : Nat
  bitLen : Nat
  deriving DecidableEq, Repr

/-- The `while` loop of `dirty_chunks`. Every round covers a whole chunk, or
all that is left, so the number of chunks is fuel enough. -/
def chunksFrom : Nat → Nat → Nat → Nat → List DirtyChunk
  | 0, _, _, _ => []
  | fuel + 1, gpa, stop, bitOff =>
    if gpa < stop then
      let len := min dirtyChunk (stop - gpa)
      ⟨gpa, len, bitOff, (len / pageSize + 7) / 8⟩ :: chunksFrom fuel (gpa + len) stop
          (bitOff + dirtyChunk / pageSize / 8)
    else []

/-- Split `[startGpa, startGpa + len)` into pieces the kernel accepts. -/
def dirtyChunks (startGpa len bitmapLen : Nat) : Except String (List DirtyChunk) :=
  if ¬ (startGpa % pageSize = 0 ∧ len % pageSize = 0) then
    .error ("dirty range [" ++ hex startGpa ++ ", +" ++ hex len ++ ") is not page aligned")
  else match checkedAdd startGpa len with
    | none => .error "dirty range overflows"
    | some stop =>
      let pages := len / pageSize
      let required := (pages + 7) / 8
      if bitmapLen < required then
        .error ("bitmap too small: need " ++ toString required ++
          " bytes for " ++ toString pages ++ " pages, got " ++
          toString bitmapLen)
      else
        .ok (chunksFrom ((len + dirtyChunk - 1) / dirtyChunk) startGpa stop 0)

/-- Put one chunk's bits into its slice of the bitmap. -/
def splice (bitmap : List UInt8) (c : DirtyChunk) (bits : List UInt8) : List UInt8 :=
  bitmap.take c.bitOff ++ bits ++ bitmap.drop (c.bitOff + c.bitLen)

end Rshyve.Mem
