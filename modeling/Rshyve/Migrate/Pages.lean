/-
# Guest pages on the wire

`vmm-migrate/src/{pages,protocol}.rs` and the batching of `source.rs`: the
dirty bitmap and its iterator, the page lists of a batch, and the function
that puts a received batch into guest memory. Everything here is a pure
function of its arguments; the loops that send and receive are in
`Migrate.Source` and `Migrate.Destination`.
-/
import Rshyve.Migrate.Codec

namespace Rshyve.Migrate

open Mem (pageSize hex GuestMem checkedAdd)

-- ==== the dirty bitmap

/-- Bitmap size in bytes for a memory region of `len` bytes. -/
def bitmapSize (len : Nat) : Nat :=
  let numPages := (len + pageSize - 1) / pageSize
  (numPages + 8 - 1) / 8

/-- The test `PageIter` makes for one page: its byte is in the bitmap, and
its bit in the byte is set. -/
def bitSet (bitmap : List UInt8) (i : Nat) : Bool :=
  match bitmap[i / 8]? with
  | some b => b.toNat.testBit (i % 8)
  | none => false

/-- An iterator over the set bits of a dirty bitmap. -/
structure PageIter where
  bitmap : List UInt8
  baseGpa : Nat
  bitIndex : Nat
  totalBits : Nat

namespace PageIter

def new (bitmap : List UInt8) (baseGpa regionLen : Nat) : PageIter :=
  ⟨bitmap, baseGpa, 0, regionLen / pageSize⟩

/-- The `while` loop of `next`: the address of the next dirty page and the
iterator past it. The fuel is the number of bits left. -/
def scan : Nat → PageIter → Option (Nat × PageIter)
  | 0, _ => none
  | fuel + 1, it =>
    if it.bitIndex < it.totalBits then
      let it' := { it with bitIndex := it.bitIndex + 1 }
      if bitSet it.bitmap it.bitIndex then
        some (it.baseGpa + it.bitIndex * pageSize, it')
      else scan fuel it'
    else none

def next (it : PageIter) : Option (Nat × PageIter) :=
  scan (it.totalBits - it.bitIndex) it

/-- Everything the iterator yields, in order. -/
def drain : Nat → PageIter → List Nat
  | 0, _ => []
  | fuel + 1, it =>
    match it.next with
    | none => []
    | some (gpa, it') => gpa :: drain fuel it'

/-- The addresses a `for` loop over the iterator visits. -/
def pages (it : PageIter) : List Nat := drain (it.totalBits - it.bitIndex) it

end PageIter

/-- The batches `push_ram` cuts the dirty pages of one region into: a batch
is sent when it is full, and the rest when the region ends. -/
def cutBatches : List Nat → List Nat → List (List Nat)
  | batch, [] => if batch.isEmpty then [] else [batch]
  | batch, gpa :: rest =>
    let batch' := batch ++ [gpa]
    if batch'.length ≥ batchSize then batch' :: cutBatches [] rest
    else cutBatches batch' rest

-- ==== lists of pages

/-- The byte size of `pageCount` pages, for a count a batch may have. The
product cannot overflow once the count is checked. -/
def pageBufferLen (pageCount : Nat) : Except MigrateError Nat :=
  if pageCount = 0 ∨ pageCount > maxPagesPerBatch then
    .error (.codec ("invalid page count: " ++ toString pageCount))
  else .ok (pageCount * pageSize)

/-- The addresses of `pageCount` pages from `baseGpa` on. -/
def buildContiguousGpas (baseGpa pageCount : Nat) : Except MigrateError (List Nat) := do
  let _ ← pageBufferLen pageCount
  (List.range pageCount).mapM fun i =>
    match checkedAdd baseGpa (i * pageSize) with
    | none => .error (.codec "page GPA overflow")
    | some gpa => .ok gpa

/-- Whether the addresses are those of consecutive pages. -/
def areContiguous : List Nat → Bool
  | [] => false
  | base :: rest =>
    ((base :: rest).zipIdx).all fun (gpa, i) =>
      checkedAdd base (i * pageSize) == some gpa

/-- `u32::try_from` on a page count. -/
def pageCountU32 (count : Nat) : Except MigrateError Nat :=
  if count < 2 ^ 32 then .ok count
  else .error (.codec ("invalid page count: " ++ toString count))

/-- Compress, and keep the result only when it is smaller. -/
def compress (out : Outside) (raw : List UInt8) : List UInt8 × Nat :=
  match out.compress raw with
  | some c => if c.length < raw.length then (c, pageBatchFlagZstd) else (raw, 0)
  | none => (raw, 0)

/-- The whole pages of a buffer (`as_chunks::<PAGE_SIZE>`). -/
def pageChunks (raw : List UInt8) : List (List UInt8) :=
  (List.range (raw.length / pageSize)).map fun i =>
    (raw.drop (i * pageSize)).take pageSize

-- ==== applying a batch

/-- The checks on a batch's header. -/
def checkBatch (pageCount flags : Nat) : Except MigrateError Unit :=
  if pageCount = 0 ∨ pageCount > maxPagesPerBatch then
    .error (.codec ("invalid PageBatch page count: " ++ toString pageCount))
  else if unknownFlags flags then
    .error (.codec ("unknown PageBatch flags: " ++ hex flags))
  else .ok ()

def sizeMismatch (expected n : Nat) : MigrateError :=
  .codec ("PageBatch size mismatch: expected " ++ toString expected ++ ", got " ++ toString n)

/-- Bound and decompress the data of a batch. -/
def inflate (out : Outside) (flags : Nat) (data : List UInt8)
    (expected : Nat) : Except MigrateError (List UInt8) :=
  if isZstd flags then
    if data.length > maxBatchCompressedBytes then
      .error (.codec ("compressed PageBatch too large: " ++ toString data.length ++ " bytes"))
    else match out.decompress data expected with
      | .ok raw => .ok raw
      | .error e => .error (.codec ("zstd decompress: " ++ e))
  else if data.length ≠ expected then
    .error (sizeMismatch expected data.length)
  else .ok data

/-- The data of a batch as exactly `expected` bytes. -/
def batchBytes (out : Outside) (flags : Nat) (data : List UInt8)
    (expected : Nat) : Except MigrateError (List UInt8) := do
  let raw ← inflate out flags data expected
  if raw.length ≠ expected then .error (sizeMismatch expected raw.length)
  else .ok raw

/-- The destination addresses of a batch: the list of the `MemFetch` before
it, or the pages from `baseGpa` on. -/
def batchGpas (baseGpa pageCount : Nat) : Option (List Nat) → Except MigrateError (List Nat)
  | some gpas =>
    if gpas.length ≠ pageCount then
      .error (.codec ("sparse GPA count mismatch: expected " ++
        toString pageCount ++ ", got " ++ toString gpas.length))
    else .ok gpas
  | none => buildContiguousGpas baseGpa pageCount

/-- The error of a page that cannot be written. -/
def pageWriteError (gpa : Nat) (e : String) : MigrateError :=
  .io ("guest memory write gpa=" ++ hex gpa ++ ": " ++ e)

/-- Every destination is mapped and writable. -/
def preflight (m : GuestMem) (gpas : List Nat) : Except MigrateError Unit :=
  gpas.forM fun gpa =>
    match m.space.lookup gpa pageSize with
    | none => .error (pageWriteError gpa "page is not mapped")
    | some v =>
      match GuestMem.checkWrite v 0 with
      | .error e => .error (pageWriteError gpa e.text)
      | .ok () => .ok ()

/-- Write the pages one after the other. -/
def writePages (m : GuestMem) (pages : List (Nat × List UInt8)) : Except MigrateError GuestMem :=
  pages.foldlM (fun m (gpa, page) =>
    match m.write gpa page with
    | .ok m' => .ok m'
    | .error e => .error (pageWriteError gpa e.text)) m

/-- Check a received batch in full, then write it. The transfer counters of
the status are not modelled: nothing reads them. -/
def applyPageBatch (out : Outside) (m : GuestMem)
    (baseGpa pageCount flags : Nat) (data : List UInt8)
    (sparse : Option (List Nat)) : Except MigrateError GuestMem := do
  checkBatch pageCount flags
  let raw ← batchBytes out flags data (pageCount * pageSize)
  let gpas ← batchGpas baseGpa pageCount sparse
  preflight m gpas
  writePages m (gpas.zip (pageChunks raw))

end Rshyve.Migrate
