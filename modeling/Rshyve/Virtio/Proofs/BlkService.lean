/-
# From the kick to the disk

What the guest gets out of virtio-blk, end to end: a kick takes heads from
the ring and answers or passes on each of them (`BlkKicks`), and a worker
runs what was passed on (`BlkBytes`). Between the two, guest memory and the
disk may have become anything.

The guest builds the chain, so it can name a byte twice: two writable
segments may overlap, and the status byte may lie in one. The device copies
in chain order and writes the status last, and what it leaves is that.
-/
import Rshyve.Virtio.Proofs.BlkKicks

namespace Rshyve.Virtio.Blk

open Conc Proc Rshyve.Mem Pour

variable {dev : Device} {req : BlkIoRequest}

-- ==== small runs

/-- Surroundings in which nothing fails and nothing has to wait. -/
def smooth : Fates where
  answer _ o := match o with
    | .loadOpen _ | .hasNewAvail _ | .publishBatch .. | .isCurrent _
    | .disk _ => true
    | .loadGen _ | .loadIntr | .queueSize _ | .lastAvail _
    | .nextWorker _ => 0
    | .getCompletion .. => ⟨0, 0, 0⟩
    | .popAvail _ | .barrierTry .. => some 0
    | .touch _ x => match x with
        | .collectChain _ | .header _ | .payload .. => none
        | .status .. => ()
        | .deviceId .. | .scatter .. | .gather .. => true
    | .readLock | .readUnlock | .armEvent _ | .sendReq .. | .barrierLock
    | .barrierUnlock | .dropTicket _ => ()
  cut _ := 0

/-- Eight sectors, one queue. -/
def small : Device := ⟨1, ⟨8, false, false⟩⟩

def descBytes (addr len flags next : Nat) : List UInt8 :=
  Bytes.le 8 addr ++ Bytes.le 4 len ++ Bytes.le 2 flags ++ Bytes.le 2 next

/-- A device with the given descriptors at 0x1000, one entry in the
available ring for the first of them, a header at 0x3000, and a disk on which
every byte is its own offset. -/
def kicked (descs : List (List UInt8)) (rtype sector : Nat) : Data where
  mem := ⟨.newAnon 0 0x10000, poke (poke (poke (fun _ => 0xee) 0x1000 descs.flatten)
      0x1100 (Bytes.le 2 0 ++ Bytes.le 2 1 ++ Bytes.le 2 0))
      0x3000 (Bytes.le 8 rtype ++ Bytes.le 8 sector)⟩
  file := ⟨UInt8.ofNat, 4096⟩
  bounce _ := 0
  queues _ := (Pci.VirtQueue.new 4).setAddrModern 0x1000 0x1100 0x1200
  writers _ := none
  deeds := []
  reached := []
  used := []
  sent := []
  fates := smooth
  clock := 0

-- ==== passed-on requests

/-- Some kick handed the request to a worker. -/
def Dispatched (dev : Device) (req : BlkIoRequest) : Prop :=
  ∃ (q fuel : Nat) (raise : Bool) (s s' : Data), s.sent = [] ∧
    (notifyQueue dev q).eval perform fuel s = some (raise, s') ∧
    req ∈ s'.sent

theorem Dispatched.check (h : Dispatched dev req) :
    checkHeader dev.limits.capacity req.chain ⟨req.rtype, req.sector⟩ = true := by
  obtain ⟨q, fuel, raise, s, s', hnone, hrun, hmem⟩ := h
  obtain ⟨hs, c, tag, -, -, hsent, hright, -⟩ := returns_notifyQueue.eval hrun
  rw [hsent, hnone, List.nil_append] at hmem
  obtain ⟨r, hr, rfl⟩ := List.mem_map.1 hmem
  obtain ⟨h, hh, hreq⟩ := List.mem_filterMap.1 hr
  have hok := hright h hh
  unfold Handled.request? at hreq
  unfold Handled.Right at hok
  cases hreply : h.reply with
  | used len =>
    rw [hreply] at hreq
    cases hreq
  | passed header chain =>
    rw [hreply] at hreq hok
    cases hreq
    exact hok.2

variable {r : Except Retired (Nat × Nat)} {s s' : Data}

theorem Dispatched.ended (h : Dispatched dev req) {fuel : Nat}
    (hrun : (runRequest dev req).run.eval perform fuel (s.serving req) = some
      (r, s')) : Ended dev req (s.serving req).toView s' r :=
  (moves_runRequest h.check (.start rfl)).eval hrun

-- ==== lengths

/-- The entry of a worker is for the head of its request, and its length is
covered by what was written just when the status byte lands, or the request
failed after it had written something. -/
theorem Ended.length {entry : Nat × Nat}
    (h : Ended dev req (s.serving req).toView s' (.ok entry)) :
    entry.1 = req.head ∧ ∃ d, s'.deeds = d :: s.deeds ∧
      d.head = req.head ∧ d.chain = some req.chain ∧
      (entry.2 ≤ d.written ↔ d.StatusLands s.mem.space ∨
        d.status ≠ some blkSOk ∧ 0 < d.written) := by
  obtain ⟨v, status, hhead, ⟨n, hserving, hlen, -⟩, hs'⟩ := h
  obtain ⟨d, ds, writes, hd, hv, hn⟩ := hserving.deeds
  cases hd
  rw [touch_status hv] at hs'
  refine ⟨hhead, _, congrArg View.deeds hs', rfl, rfl, ?_⟩
  have hspace : v.mem.space = s.mem.space := hserving.space
  have hone := wroteInto_writeStatus v.mem req.chain status
  have hdata : wroteInto req.chain writes = n := hn
  rw [hspace] at hone
  simp only [Deed.written, Deed.StatusLands, wroteInto_append, hone, hdata,
    Option.some.injEq, forall_eq', ne_eq]
  rw [show entry.2 = _ from hlen]
  by_cases hok : status = blkSOk <;>
    cases statusLands s.mem.space req.chain <;>
    simp [hok, Nat.succ_le_iff]

/-- A kick returns from any state of the ring and of guest memory. Every
head it took has one reply, a used entry or a request for a worker, and the
worker's entry, if its ring is still there, is for that head. A used length
is covered by the bytes written into the head's chain just when the status
byte of the chain lands, or a worker's request failed after it had written
something: such an entry counts the status byte alone. -/
theorem heads_answered_once (dev : Device) :
    (∀ (q : Nat) (s : Data), Returns perform (notifyQueue dev q)
      (fun s' _ => Answered dev s.toView s'.toView) s) ∧
    (∀ (req : BlkIoRequest) (s s' : Data) (fuel : Nat) (entry : Nat × Nat),
      Dispatched dev req →
      (runRequest dev req).run.eval perform fuel (s.serving req)
        = some (.ok entry, s') →
      entry.1 = req.head ∧ ∃ d, s'.deeds = d :: s.deeds ∧
        d.head = req.head ∧ d.chain = some req.chain ∧
        (entry.2 ≤ d.written ↔ d.StatusLands s.mem.space ∨
          d.status ≠ some blkSOk ∧ 0 < d.written)) := by
  refine ⟨fun q s => returns_notifyQueue, ?_⟩
  intro req s s' fuel entry hsent hrun
  exact (hsent.ended hrun).length

/-- A question for the device's ID: 20 bytes and a status. -/
def askId : Data :=
  kicked [descBytes 0x3000 16 1 1, descBytes 0x4000 32 3 2, descBytes 0x5000 1 2 0] blkTGetId 0

theorem heads_answered_once_askId :
    ∃ raise s', (notifyQueue small 0).eval perform 200 askId
        = some (raise, s') ∧ s'.used = [(0, 21)] ∧
      Answered small askId.toView s'.toView := by
  obtain ⟨⟨raise, s'⟩, hrun, hused⟩ :
      ∃ x, (notifyQueue small 0).eval perform 200 askId = some x ∧
        x.2.used = [(0, 21)] := by
    decide
  exact ⟨raise, s', hrun, hused,
    ((heads_answered_once small).1 0 askId).eval hrun⟩

/-- A chain of one readable buffer has no place for a status. The head comes
back with a used length of one byte, and nothing was written. -/
theorem lone_header_used_one :
    ((notifyQueue small 0).eval perform 200
        (kicked [descBytes 0x3000 16 0 0] blkTIn 1)).map
      (fun r => (r.2.used, r.2.deeds.map fun d => (d.head, d.written)))
      = some ([(0, 1)], [(0, 0)]) := by
  decide

-- ==== data

/-- The status byte changes one byte at most. -/
theorem writeStatus_bytes {t : Target} {chain : List ChainBuf}
    {status a : Nat} (h : statusAddr chain ≠ some a) :
    (t.writeStatus chain status).mem.bytes a = t.mem.bytes a := by
  unfold statusAddr at h
  unfold Target.writeStatus
  split at h
  next addr len hlast =>
    split
    next hlen =>
      rw [if_pos hlen] at h
      have hne : a ≠ addr := fun heq => h (congrArg some heq.symm)
      unfold Target.put
      split
      · rw [poke_eq_pour]
        exact pour_of_notMem _ _ (by simpa using hne)
      · rfl
    · rfl
  · rfl

/-- No byte of the writable data segments is named twice, by another of
them or by the status. -/
def Separate (chain : List ChainBuf) : Prop :=
  (dataAddrs chain true).Nodup ∧ ∀ a ∈ dataAddrs chain true, statusAddr chain ≠ some a

instance (chain : List ChainBuf) : Decidable (Separate chain) :=
  inferInstanceAs (Decidable (_ ∧ _))

/-- Guest memory after a read: the disk's bytes poured over the writable
data segments in chain order, then the status. -/
def readInto (v : View) (req : BlkIoRequest) : GuestMem :=
  (Target.writeStatus ⟨⟨v.mem.space, pour v.mem.bytes (dataAddrs req.chain true)
    (peek v.file.bytes (req.sector * sectorSize)
      (dataAddrs req.chain true).length)⟩, []⟩ req.chain blkSOk).mem

/-- Segments that are separate end up as the disk. -/
theorem segmentBytes_readInto {v : View} (h : Separate req.chain) :
    segmentBytes (readInto v req).bytes req.chain true = peek v.file.bytes (req.sector * sectorSize)
        (dataAddrs req.chain true).length := by
  rw [segmentBytes_eq]
  have hsame : (dataAddrs req.chain true).map (readInto v req).bytes
      = (dataAddrs req.chain true).map (pour v.mem.bytes (dataAddrs req.chain true)
        (peek v.file.bytes (req.sector * sectorSize) (dataAddrs req.chain true).length)) :=
    List.map_congr_left fun a ha => writeStatus_bytes (h.2 a ha)
  rw [hsame]
  exact map_pour _ h.1 (peek_length ..).symm

/-- The status a request was given is the one it ended with. -/
theorem Ended.moved (h : Ended dev req (s.serving req).toView s' r)
    (hok : (s'.deeds.head?.bind Deed.status) = some blkSOk) :
    ∃ v, Moved req (s.serving req).toView v ∧ v.mem.space = s.mem.space ∧ s'.file = v.file ∧
      s'.mem = (Target.writeStatus ⟨v.mem, []⟩ req.chain blkSOk).mem := by
  cases r with
  | error e =>
    obtain ⟨n, hserving⟩ := h
    obtain ⟨d, ds, writes, hd, hv, -⟩ := hserving.deeds
    cases hd
    rw [hv] at hok
    cases hok
  | ok entry =>
    obtain ⟨v, status, -, ⟨n, hserving, -, hmoved⟩, hs'⟩ := h
    obtain ⟨d, ds, writes, -, hv, -⟩ := hserving.deeds
    rw [touch_status hv] at hs'
    rw [hs'] at hok
    obtain rfl : status = blkSOk := Option.some.inj hok
    exact ⟨v, hmoved rfl, hserving.space, by rw [hs'], by rw [hs']⟩

theorem Ended.reached (h : Ended dev req (s.serving req).toView s' r) : ∀ range ∈ s'.reached,
      range ∈ s.reached ∨ range.1 + range.2 ≤ dev.diskBytes := by
  cases r with
  | error e =>
    obtain ⟨n, hserving⟩ := h
    exact hserving.reached
  | ok entry =>
    obtain ⟨v, status, -, ⟨n, hserving, -, -⟩, hs'⟩ := h
    obtain ⟨d, ds, writes, -, hv, -⟩ := hserving.deeds
    rw [touch_status hv] at hs'
    rw [hs']
    exact hserving.reached

/-- A request that a kick passed on, run from any guest memory and any disk:
whatever becomes of it, it reaches the backing store inside the disk only.
If its status is OK, a read has poured the disk's bytes over the writable
segments, and a write has put the readable segments on the disk and nothing
else. A kick itself does not reach the backing store. -/
theorem request_moves_its_bytes (dev : Device) (req : BlkIoRequest)
    (s s' : Data) (fuel : Nat) (r : Except Retired (Nat × Nat))
    (hsent : Dispatched dev req)
    (hrun : (runRequest dev req).run.eval perform fuel (s.serving req)
      = some (r, s')) :
    (∀ range ∈ s'.reached, range ∈ s.reached ∨
      range.1 + range.2 ≤ dev.limits.capacity * sectorSize) ∧
    (s'.deeds.head?.bind Deed.status = some blkSOk →
      (req.rtype = blkTIn →
        s'.file = s.file ∧ s'.mem = readInto s.toView req ∧
        (Separate req.chain →
          segmentBytes s'.mem.bytes req.chain true
            = peek s.file.bytes (req.sector * sectorSize)
              (segmentBytes s'.mem.bytes req.chain true).length)) ∧
      (req.rtype = blkTOut →
        s'.file.bytes = poke s.file.bytes (req.sector * sectorSize)
          (segmentBytes s.mem.bytes req.chain false))) ∧
    (∀ q : Nat, Returns perform (notifyQueue dev q)
      (fun s₁ _ => s₁.reached = s.reached) s) := by
  have hended := hsent.ended hrun
  refine ⟨hended.reached, fun hok => ?_, fun q => ?_⟩
  · obtain ⟨v, hmoved, hspace, hfile, hmem⟩ := hended.moved hok
    constructor
    · intro hin
      obtain ⟨hsame, hbytes⟩ := hmoved.1 hin
      have hinto : s'.mem = readInto s.toView req := by
        rw [hmem]
        show (Target.writeStatus ⟨⟨v.mem.space, v.mem.bytes⟩, []⟩ req.chain
          blkSOk).mem = _
        rw [hspace, hbytes]
        rfl
      refine ⟨hfile.trans hsame, hinto, fun hsep => ?_⟩
      rw [hinto, segmentBytes_readInto hsep, peek_length]
    · intro hout
      rw [hfile, (hmoved.2 hout).2, segmentBytes_eq]
      rfl
  · refine returns_notifyQueue.mono fun s₁ _ h => ?_
    obtain ⟨hs, c, tag, -, -, -, -, hreached⟩ := h
    exact hreached

/-- A read of five bytes at sector 1, into two segments. -/
def fiveBytes : BlkIoRequest where
  rtype := blkTIn
  sector := 1
  chain := [.readable 0x3000 16, .writable 0x4000 2, .writable 0x4008 3, .writable 0x5000 1]
  head := 0
  completion := ⟨0, 0, 0⟩
  tag := ⟨0, 0⟩

def fiveKicked : Data :=
  kicked [descBytes 0x3000 16 1 1, descBytes 0x4000 2 3 2,
    descBytes 0x4008 3 3 3, descBytes 0x5000 1 2 0] blkTIn 1

theorem fiveBytes_dispatched : Dispatched small fiveBytes := by
  obtain ⟨⟨raise, s'⟩, hrun, hsent⟩ :
      ∃ x, (notifyQueue small 0).eval perform 200 fiveKicked = some x ∧ fiveBytes ∈ x.2.sent := by
    decide
  exact ⟨0, 200, raise, fiveKicked, s', rfl, hrun, hsent⟩

theorem request_moves_its_bytes_five :
    ∃ r s', (runRequest small fiveBytes).run.eval perform 200
        (fiveKicked.serving fiveBytes) = some (r, s') ∧
      segmentBytes s'.mem.bytes fiveBytes.chain true = [0, 1, 2, 3, 4] := by
  obtain ⟨⟨r, s'⟩, hrun, hok⟩ :
      ∃ x, (runRequest small fiveBytes).run.eval perform 200
          (fiveKicked.serving fiveBytes) = some x ∧
        x.2.deeds.head?.bind Deed.status = some blkSOk := by
    decide +kernel
  have hread := ((request_moves_its_bytes small fiveBytes fiveKicked s' 200 r
    fiveBytes_dispatched hrun).2.1 hok).1 rfl
  refine ⟨r, s', hrun, ?_⟩
  have hlen : (segmentBytes s'.mem.bytes fiveBytes.chain true).length = 5 := by
    rw [segmentBytes_eq, List.length_map]
    rfl
  rw [hread.2.2 (by decide), hlen]
  decide

/-- Two segments at one place: the read is OK, and both of them hold the
second byte. -/
theorem overlapping_read :
    (((notifyQueue small 0).eval perform 200
        (kicked [descBytes 0x3000 16 1 1, descBytes 0x4000 1 3 2,
          descBytes 0x4000 1 3 3, descBytes 0x5000 1 2 0] blkTIn 1)).bind
      fun k => k.2.sent.head?.bind fun req =>
        ((runRequest small req).run.eval perform 200 (k.2.serving req)).map
          fun r => (r.2.deeds.head?.bind Deed.status,
            segmentBytes r.2.mem.bytes req.chain true,
            peek r.2.file.bytes (req.sector * sectorSize) 2))
      = some (some blkSOk, [1, 1], [0, 1]) := by
  decide

-- ==== the disk as a store

/-- A worker ran a request that a kick passed on, and its status is OK. -/
def Served (dev : Device) (req : BlkIoRequest) (s s' : Data) : Prop :=
  Dispatched dev req ∧ ∃ fuel r, (runRequest dev req).run.eval perform fuel (s.serving req) =
    some (r, s') ∧ s'.deeds.head?.bind Deed.status = some blkSOk

theorem Served.moved (h : Served dev req s s') :
    ∃ v, Moved req s.toView v ∧ s'.file = v.file ∧
      s'.mem = (Target.writeStatus ⟨⟨s.mem.space, v.mem.bytes⟩, []⟩ req.chain blkSOk).mem := by
  obtain ⟨hsent, fuel, r, hrun, hok⟩ := h
  obtain ⟨v, hmoved, hspace, hfile, hmem⟩ := (hsent.ended hrun).moved hok
  exact ⟨v, hmoved, hfile, hspace ▸ hmem⟩

/-- Reads and writes served one after the other, over any guest memory: what
was written where, newest first, and the disk before and after. -/
inductive History (dev : Device) (f : Store) : List (Nat × List UInt8) → Store → Prop
  | start : History dev f [] f
  | read {ws req s s'} (h : History dev f ws s.file) (hs : Served dev req s s')
      (hin : req.rtype = blkTIn) : History dev f ws s'.file
  | write {ws req s s'} (h : History dev f ws s.file) (hs : Served dev req s s')
      (hout : req.rtype = blkTOut) :
      History dev f ((req.sector * sectorSize, segmentBytes s.mem.bytes req.chain false) :: ws)
        s'.file

/-- The byte at `a` of the newest write that covers it. -/
def newest (f : Store) (ws : List (Nat × List UInt8)) (a : Nat) : UInt8 :=
  (ws.findSome? fun w => if w.1 ≤ a then w.2[a - w.1]? else none).getD (f.bytes a)

theorem History.bytes {f g : Store} {ws : List (Nat × List UInt8)} (h : History dev f ws g) :
    g.bytes = newest f ws := by
  induction h with
  | start => rfl
  | read h hs hin ih =>
    obtain ⟨v, hmoved, hfile, -⟩ := hs.moved
    rw [hfile, (hmoved.1 hin).1, ← ih]
  | write h hs hout ih =>
    obtain ⟨v, hmoved, hfile, -⟩ := hs.moved
    rw [hfile, (hmoved.2 hout).2, segmentBytes_eq]
    funext a
    have hold := congrFun ih a
    simp only [poke, newest, List.findSome?_cons] at hold ⊢
    rw [hold]
    split <;> grind

/-- A read gets, byte by byte, what the newest write of that byte put on the
disk. -/
theorem reads_newest {f : Store} {ws : List (Nat × List UInt8)} (h : History dev f ws s.file)
    (hs : Served dev req s s') (hin : req.rtype = blkTIn) (hsep : Separate req.chain) :
    segmentBytes s'.mem.bytes req.chain true = peek (newest f ws) (req.sector * sectorSize)
      (segmentBytes s'.mem.bytes req.chain true).length := by
  obtain ⟨v, hmoved, -, hmem⟩ := hs.moved
  have hinto : s'.mem = readInto s.toView req := by
    rw [hmem, (hmoved.1 hin).2]
    rfl
  rw [hinto, segmentBytes_readInto hsep, peek_length, ← h.bytes]

/-- A write of three bytes at sector 1. -/
def threeBytes : BlkIoRequest :=
  { fiveBytes with
    rtype := blkTOut
    chain := [.readable 0x3000 16, .readable 0x4000 3, .writable 0x5000 1] }

def threeKicked : Data :=
  kicked [descBytes 0x3000 16 1 1, descBytes 0x4000 3 1 2, descBytes 0x5000 1 2 0] blkTOut 1

/-- Three of five bytes were written before. -/
theorem reads_newest_three : ∃ s s', Served small fiveBytes s s' ∧
    segmentBytes s'.mem.bytes fiveBytes.chain true = [0xee, 0xee, 0xee, 3, 4] := by
  obtain ⟨⟨raise, k⟩, hkick, hsent⟩ : ∃ x, (notifyQueue small 0).eval perform 200 threeKicked =
      some x ∧ threeBytes ∈ x.2.sent := by decide
  obtain ⟨⟨r, s⟩, hrun, hok, ⟨r', s'⟩, hrun', hok'⟩ :
      ∃ x, (runRequest small threeBytes).run.eval perform 200 (threeKicked.serving threeBytes) =
          some x ∧ x.2.deeds.head?.bind Deed.status = some blkSOk ∧
        ∃ y, (runRequest small fiveBytes).run.eval perform 200
          (Data.serving { fiveKicked with file := x.2.file } fiveBytes) = some y ∧
            y.2.deeds.head?.bind Deed.status = some blkSOk := by decide +kernel
  have hwrite : Served small threeBytes threeKicked s :=
    ⟨⟨0, 200, raise, threeKicked, k, rfl, hkick, hsent⟩, 200, r, hrun, hok⟩
  have hread : Served small fiveBytes { fiveKicked with file := s.file } s' :=
    ⟨fiveBytes_dispatched, 200, r', hrun', hok'⟩
  have hlen : (segmentBytes s'.mem.bytes fiveBytes.chain true).length = 5 := by
    rw [segmentBytes_eq, List.length_map]
    rfl
  refine ⟨_, s', hread, ?_⟩
  have hhistory := History.write .start hwrite rfl
  rw [reads_newest (s := { fiveKicked with file := s.file }) hhistory hread rfl (by decide),
    hlen]
  decide

end Rshyve.Virtio.Blk
