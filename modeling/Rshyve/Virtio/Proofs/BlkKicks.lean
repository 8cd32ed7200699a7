/-
# What a kick does with its heads

`notify_queue` over bytes, from any state of the ring and of guest memory.
Every head it takes gets one reply (`Handled`): a used entry, or a request
for a worker. The two lists of the source are read off one list of replies,
so no head is in both and none is in neither.

# The drain ends

A round of `drain_avail` that goes on has taken a head, of which there are
only so many, or has skipped an entry that names no descriptor and armed
`avail_event`. The guest chooses where the rings lie, so the word that is
armed can be a part of the driver's own index. Still some cursor value is
one at which an armed ring looks empty (`exists_rest`), and every skip comes
closer to it.
-/
import Rshyve.Virtio.Proofs.BlkBytes
import Rshyve.Virtio.Proofs.Programming

namespace Rshyve.Virtio.Blk

open Conc Proc Rshyve.Mem Function
open Returns (seq)

variable {dev : Device}

-- ==== the armed ring

theorem poke_poke {bytes : Nat → UInt8} {a : Nat} {xs ys : List UInt8} (h : xs.length = ys.length) :
    poke (poke bytes a xs) a ys = poke bytes a ys := by
  funext x
  unfold poke
  split
  · rcases Nat.lt_or_ge (x - a) ys.length with hx | hx
    · rw [List.getElem?_eq_getElem hx, Option.getD_some, Option.getD_some]
    · rw [List.getElem?_eq_none hx, List.getElem?_eq_none (by omega)]
      rfl
  · rfl

theorem storeWord_storeWord (m : GuestMem) (a : Nat) (w w' : BitVec 16) :
    storeWord (storeWord m a w) a w' = storeWord m a w' := by
  unfold storeWord GuestMem.store
  simp only [Bytes.le_length]
  by_cases h : canStore m.space a 2 2 = true
  · simp only [if_pos h]
    rw [poke_poke (by simp)]
  · simp only [if_neg h]

/-- Memory reads the cursor at `idx` once it is stored at `event`, or reads
nothing there. -/
def Rest (m : GuestMem) (idx event : Nat) (c : BitVec 16) : Prop :=
  ∀ w, readWord (storeWord m event c) idx = some w → w = c

theorem rest_storeWord (m : GuestMem) (idx event : Nat) (w : BitVec 16) :
    Rest (storeWord m event w) idx event = Rest m idx event := by
  funext c
  unfold Rest
  rw [storeWord_storeWord]

/-- The number two bytes of memory hold. -/
def pairAt (bytes : Nat → UInt8) (a : Nat) : Nat :=
  (bytes a).toNat + 256 * (bytes (a + 1)).toNat

variable {m : GuestMem}

theorem readWord_pair {a : Nat} {w : BitVec 16} (h : readWord m a = some w) :
    w = BitVec.ofNat 16 (pairAt m.bytes a) := by
  obtain ⟨bs, hbs, rfl⟩ := Option.map_eq_some_iff.1 h
  unfold GuestMem.load at hbs
  split at hbs
  · cases hbs
    simp [wordOf, peek, Bytes.ofLe, pairAt, List.range_succ]
  · cases hbs

/-- The bytes around a stored word. -/
theorem poke_le_two (bytes : Nat → UInt8) (a : Nat) (c : Nat) : poke bytes a (Bytes.le 2 c) = update
      (update bytes a (UInt8.ofNat c)) (a + 1)
      (UInt8.ofNat (c / 256)) := by
  rw [Bytes.le, Bytes.le, Bytes.le, poke_cons, poke_cons]
  funext x
  simp [poke]

/-- Arming does not move the index. -/
theorem rest_unmoved {idx event : Nat}
    (h : ∀ c, readWord (storeWord m event c) idx = readWord m idx) :
    ∃ c, Rest m idx event c := by
  cases hidx : readWord m idx with
  | none =>
    refine ⟨0, fun w hw => ?_⟩
    rw [h, hidx] at hw
    cases hw
  | some c =>
    refine ⟨c, fun w hw => ?_⟩
    rw [h, hidx] at hw
    exact (Option.some.inj hw).symm

/-- Whatever the overlap of the two words, there is such a cursor. -/
theorem exists_rest (m : GuestMem) (idx event : Nat) : ∃ c, Rest m idx event c := by
  by_cases hapart : Apart idx 2 event 2
  case pos => exact rest_unmoved fun c => readWord_storeWord_apart hapart
  by_cases hstore : canStore m.space event 2 2 = true
  case neg =>
    refine rest_unmoved fun c => ?_
    unfold storeWord GuestMem.store
    rw [Bytes.le_length, if_neg hstore]
  have hread (c w : BitVec 16) (hw : readWord (storeWord m event c) idx = some w) :
      w = BitVec.ofNat 16 (pairAt (update (update m.bytes event (UInt8.ofNat c.toNat)) (event + 1)
        (UInt8.ofNat (c.toNat / 256))) idx) := by
    rw [← poke_le_two]
    refine (readWord_pair hw).trans ?_
    unfold storeWord GuestMem.store
    rw [Bytes.le_length, if_pos hstore]
  have hnear : event = idx + 1 ∨ event = idx ∨ idx = event + 1 := by
    unfold Apart at hapart
    omega
  rcases hnear with rfl | rfl | rfl
  · -- the index's high byte is the low byte of the armed word
    refine ⟨BitVec.ofNat 16 (257 * (m.bytes idx).toNat), fun w hw => ?_⟩
    rw [hread _ w hw]
    have hx := (m.bytes idx).toNat_lt
    unfold pairAt
    rw [update_of_ne (by omega), update_of_ne (by omega), update_of_ne (by omega), update_self]
    apply BitVec.eq_of_toNat_eq
    simp only [BitVec.toNat_ofNat, UInt8.toNat_ofNat']
    omega
  · refine ⟨0, fun w hw => ?_⟩
    rw [hread _ w hw]
    unfold pairAt
    rw [update_of_ne (by omega), update_self, update_self]
    rfl
  · -- its low byte is the high byte of the armed word
    refine ⟨BitVec.ofNat 16 (257 * (m.bytes (event + 1 + 1)).toNat), fun w hw => ?_⟩
    rw [hread _ w hw]
    have hx := (m.bytes (event + 1 + 1)).toNat_lt
    unfold pairAt
    rw [update_self, update_of_ne (by omega), update_of_ne (by omega)]
    apply BitVec.eq_of_toNat_eq
    simp only [BitVec.toNat_ofNat, UInt8.toNat_ofNat']
    generalize (m.bytes (event + 1 + 1)).toNat = x at hx
    have hmod : 257 * x % 2 ^ 16 = 257 * x := Nat.mod_eq_of_lt (by omega)
    have hdiv : 257 * x / 256 = x := by omega
    rw [hmod, hdiv, Nat.mod_eq_of_lt hx]
    omega

/-- A cursor at which the armed ring of `q` looks empty. -/
noncomputable def restOf (q : Pci.VirtQueue) (m : GuestMem) : BitVec 16 :=
  Classical.epsilon (Rest m (Pci.availIdxGpa q.availAddr).toNat
    (Pci.availEventGpa q.usedAddr q.size).toNat)

/-- How many entries a drain can still skip. -/
noncomputable def skips (q : Pci.VirtQueue) (m : GuestMem) : Nat :=
  (restOf q m - q.lastAvailIdx - 1).toNat

variable {q q' : Pci.VirtQueue}

/-- A pop that yields no head leaves the cursor or moves it by one, and
leaves the rings where they are. -/
theorem popAvail_none (h : q.popAvail m = (q', none)) : (q'.lastAvailIdx = q.lastAvailIdx ∨
      q'.lastAvailIdx = q.lastAvailIdx + 1) ∧
    q'.availAddr = q.availAddr ∧ q'.usedAddr = q.usedAddr ∧
    q'.size = q.size := by
  unfold Pci.VirtQueue.popAvail at h
  split at h
  · cases h
    exact ⟨.inl rfl, rfl, rfl, rfl⟩
  rw [Pci.VirtQueue.addrsUsable_eq] at h
  dsimp only at h
  split at h
  · cases h
    exact ⟨.inl rfl, rfl, rfl, rfl⟩
  unfold Pci.VirtQueue.popEntry at h
  split at h
  · cases h
    exact ⟨.inl rfl, rfl, rfl, rfl⟩
  split at h
  · cases h
    exact ⟨.inl rfl, rfl, rfl, rfl⟩
  split at h
  · cases h
    exact ⟨.inl rfl, rfl, rfl, rfl⟩
  dsimp only at h
  split at h
  · cases h
    exact ⟨.inr rfl, rfl, rfl, rfl⟩
  · cases h

/-- A round that skips an entry and goes on comes closer to the end. -/
theorem skips_decreases (hpop : q.popAvail m = (q', none))
    (hmove : q'.lastAvailIdx ≠ q.lastAvailIdx)
    (hnew : q'.hasNewAvail (q'.updateUsedEvent m) = true) :
    skips q' (q'.updateUsedEvent m) < skips q m := by
  obtain ⟨hcursor, havail, hused, hsize⟩ := popAvail_none hpop
  have hcursor := hcursor.resolve_left hmove
  unfold Pci.VirtQueue.hasNewAvail at hnew
  split at hnew
  · cases hnew
  next hon =>
    have hevent : q'.eventIdx = true := by
      simp only [Bool.or_eq_true, Bool.not_eq_true', not_or, Bool.not_eq_false] at hon
      exact hon.1
    have harm : q'.updateUsedEvent m = storeWord m (Pci.availEventGpa q.usedAddr q.size).toNat
          q'.lastAvailIdx := by
      unfold Pci.VirtQueue.updateUsedEvent
      rw [hevent, hused, hsize]
      rfl
    have hrest : restOf q' (q'.updateUsedEvent m) = restOf q m := by
      unfold restOf
      rw [harm, havail, hused, hsize, rest_storeWord]
    have hspec : Rest m (Pci.availIdxGpa q.availAddr).toNat
        (Pci.availEventGpa q.usedAddr q.size).toNat (restOf q m) :=
      Classical.epsilon_spec (exists_rest ..)
    have hne : restOf q m ≠ q.lastAvailIdx + 1 := by
      intro heq
      rw [harm, havail, hcursor, ← heq] at hnew
      split at hnew
      next w hw =>
        rw [hspec w hw] at hnew
        simp at hnew
      · cases hnew
    unfold skips
    rw [hrest, hcursor]
    bv_omega

-- ==== replies

/-- What becomes of a head: a used entry, or a request for a worker. -/
inductive Reply where
  | used (len : Nat)
  | passed (header : VirtioBlkReqHdr) (chain : List ChainBuf)
  deriving DecidableEq, Repr

/-- A head that was taken, what the device did for it, and its reply. -/
structure Handled where
  deed : Deed
  reply : Reply
  deriving DecidableEq, Repr

/-- Bytes the device wrote into the writable buffers of the head's chain. -/
def Deed.written (d : Deed) : Nat :=
  match d.chain with
  | none => 0
  | some chain => wroteInto chain d.writes

/-- The status byte of the head's chain lands. -/
def Deed.StatusLands (s : AddressSpace) (d : Deed) : Prop :=
  ∀ chain, d.chain = some chain → statusLands s chain = true

namespace Handled

def entry? (h : Handled) : Option (Nat × Nat) :=
  match h.reply with
  | .used len => some (h.deed.head, len)
  | .passed .. => none

def request? (h : Handled) : Option (Nat × VirtioBlkReqHdr × List ChainBuf) :=
  match h.reply with
  | .used _ => none
  | .passed header chain => some (h.deed.head, header, chain)

/-- A used length is covered by what was written just when the status byte
lands; a request that is passed on has the chain of its head, and was
checked. -/
def Right (dev : Device) (s : AddressSpace) (h : Handled) : Prop :=
  match h.reply with
  | .used len => len ≤ h.deed.written ↔ h.deed.StatusLands s
  | .passed header chain => h.deed.chain = some chain ∧
      checkHeader dev.limits.capacity chain header = true

end Handled

/-- The two lists of a kick, one reply longer. -/
def Gathered.add (g : Gathered) (h : Handled) : Gathered :=
  ⟨g.requests ++ h.request?.toList, g.finished ++ h.entry?.toList⟩

-- ==== a single head

section

variable {s : Data} {v : View} {R : Type}

variable {Q : Data → R → Prop}

theorem returns_ask {o : Op} {k : Ans o → Prog R} (h : ∀ s, (perform o s).2 = s.tick)
    (hk : ∀ a s', s'.toView = s.toView → Returns perform (k a) Q s') :
    Returns perform (call o >>= k) Q s := by
  refine seq (returns_call (hk _ _ ?_))
  rw [h s]
  rfl

variable {tag : RingTag}

theorem returns_touch {x : Touch} {k : TouchAns x → Prog R}
    (hk : ∀ s', s'.toView = (s.touch tag.queueIdx x).2 →
      Returns perform (k (s.touch tag.queueIdx x).1) Q s') :
    Returns perform (call (.touch tag x) >>= k) Q s :=
  seq (returns_call (hk _ rfl))

/-- What the heads of a kick do not touch. -/
def View.aside (v : View) : Store × (Nat → UInt8) ×
    (Nat → Option Pci.VirtioCompletion) × List (Nat × Nat) ×
    List (Nat × Nat) × List BlkIoRequest :=
  (v.file, v.bounce, v.writers, v.reached, v.used, v.sent)

/-- The device is at the head of `d`. -/
structure Doing (v₀ : View) (d : Deed) (ds : List Deed) (v : View) :
    Prop where
  deeds : v.deeds = d :: ds
  aside : v.aside = v₀.aside
  space : v.mem.space = v₀.mem.space

variable {v₀ : View} {d : Deed} {ds : List Deed} {i : Nat}

theorem Doing.note (h : Doing v₀ d ds v) (f : Deed → Deed) : Doing v₀ (f d) ds (v.note f) := by
  have hv : v.note f = { v with deeds := f d :: ds } := by
    unfold View.note
    rw [h.deeds]
  rw [hv]
  exact ⟨rfl, h.aside, h.space⟩

theorem Doing.writing (h : Doing v₀ d ds v) {α : Type} (access : Target → Target × α)
    (hspace : (access ⟨v.mem, []⟩).1.mem.space = v.mem.space) :
    Doing v₀ { d with writes := (access ⟨v.mem, []⟩).1.writes ++ d.writes }
      ds (v.writing access).2 :=
  Doing.note (v := { v with mem := (access ⟨v.mem, []⟩).1.mem })
    ⟨h.deeds, h.aside, hspace.trans h.space⟩
    fun d => { d with writes := (access ⟨v.mem, []⟩).1.writes ++ d.writes }

theorem writeStatus_space (t : Target) (chain : List ChainBuf) (status : Nat) :
    (t.writeStatus chain status).mem.space = t.mem.space := by
  unfold Target.writeStatus
  split
  · split
    · exact put_space ..
    · rfl
  · rfl

variable {chain : List ChainBuf}

/-- A status byte that lands is a byte written into the chain, and one that
does not is none. -/
theorem wroteInto_writeStatus (m : GuestMem) (chain : List ChainBuf)
    (status : Nat) :
    wroteInto chain (Target.writeStatus ⟨m, []⟩ chain status).writes
      = (statusLands m.space chain).toNat := by
  unfold statusLands statusAddr Target.writeStatus
  split
  next addr len hlast =>
    by_cases hlen : len ≥ 1
    · have hin : within chain (addr, 1) = true :=
        within_of_mem (List.mem_of_getLast? hlast) rfl (Nat.le_refl _)
          (Nat.add_le_add_left hlen addr)
      rw [if_pos hlen, if_pos hlen, Option.any_some]
      unfold Target.put
      rw [List.length_singleton]
      cases hlands : lands m.space addr 1 with
      | true => exact wroteInto_cons [] hin
      | false => rfl
    · rw [if_neg hlen, if_neg hlen]
      rfl
  · rfl

/-- The status byte of the head `d` was written to `chain`, if it lands. -/
def Told (v₀ : View) (d : Deed) (ds : List Deed) (chain : List ChainBuf)
    (v : View) : Prop :=
  ∃ writes status,
    Doing v₀ { d with writes := writes ++ d.writes, status := status } ds v ∧
    wroteInto chain writes = (statusLands v₀.mem.space chain).toNat

/-- The status byte of a head decides whether a length that counts it is
covered. -/
theorem statusLands_iff {d : Deed} {a : AddressSpace} {n : Nat}
    (hchain : d.chain = some chain)
    (h : wroteInto chain d.writes = n + (statusLands a chain).toNat) :
    n + 1 ≤ d.written ↔ d.StatusLands a := by
  unfold Deed.written Deed.StatusLands
  simp only [hchain, h, Option.some.injEq, forall_eq']
  cases statusLands a chain <;> simp

theorem Doing.status (h : Doing v₀ d ds v) (chain : List ChainBuf) (status : Nat) :
    Told v₀ d ds chain (v.touch i (.status chain status)).2 := by
  refine ⟨_, _, ((h.writing (fun t => (t.writeStatus chain status, ()))
    (writeStatus_space _ _ _)).note fun d =>
      { d with status := some status }), ?_⟩
  rw [wroteInto_writeStatus, h.space]

-- ==== one request

/-- The end of a check: the chain passes and nothing is written, or it is
refused and owed its status byte. -/
def CheckDone (dev : Device) (v₀ : View) (d : Deed) (ds : List Deed)
    (chain : List ChainBuf) : Data → Except Nat VirtioBlkReqHdr → Prop
  | s, .ok header => Doing v₀ d ds s.toView ∧ checkHeader dev.limits.capacity chain header = true
  | s, .error len => len = 1 ∧ Told v₀ d ds chain s.toView

theorem returns_checkRequest (h : Doing v₀ d ds s.toView) :
    Returns perform (checkRequest dev tag chain) (CheckDone dev v₀ d ds chain) s := by
  have hrefuse (s' : Data) (h' : Doing v₀ d ds s'.toView) : Returns perform (do
          call (.touch tag (.status chain blkSIoerr))
          pure (.error 1) : Prog (Except Nat VirtioBlkReqHdr))
        (CheckDone dev v₀ d ds chain) s' := by
    refine returns_touch fun s'' hs'' => returns_ret ⟨rfl, ?_⟩
    rw [hs'']
    exact h'.status chain blkSIoerr
  unfold checkRequest
  split
  · exact hrefuse s h
  split
  · exact hrefuse s h
  · refine returns_touch fun s' hs' => ?_
    have h' : Doing v₀ d ds s'.toView := hs' ▸ h
    split
    · exact hrefuse s' h'
    next header _ =>
      split
      next hcheck => exact returns_ret ⟨h', hcheck⟩
      · exact hrefuse s' h'

theorem idBuffer_within {addr n : Nat} (h : idBuffer chain = some (addr, n)) :
    within chain (addr, n) = true ∧ n ≤ blkIdBytes := by
  obtain ⟨data, hdata, hfind⟩ := Option.bind_eq_some_iff.1 h
  obtain ⟨b, hb, heq⟩ := Option.bind_eq_some_iff.1 hfind
  cases heq
  have hpick := List.find?_some hb
  rw [Bool.and_eq_true] at hpick
  have hmem := dataSegments_subset hdata (List.mem_of_find?_eq_some hb)
  refine ⟨within_of_mem hmem hpick.1 (Nat.le_refl _) ?_, Nat.min_le_right _ _⟩
  exact Nat.add_le_add_left (Nat.min_le_left _ _) _

/-- What it claims is what it wrote, and the status byte that is still to
come. -/
theorem returns_localRequest {header : VirtioBlkReqHdr} (h : Doing v₀ d ds s.toView) :
    Returns perform (localRequest tag header chain) (fun s' r => ∃ writes,
      Doing v₀ { d with writes := writes ++ d.writes } ds s'.toView ∧
      r.2 = wroteInto chain writes + 1) s := by
  unfold localRequest
  split
  · split
    · exact returns_ret ⟨[], h, rfl⟩
    next addr n hid =>
      obtain ⟨hin, hn⟩ := idBuffer_within hid
      refine returns_touch fun s' hs' => ?_
      have hdoing := h.writing (fun t => t.put addr (deviceId.take n)) (put_space _ _ _)
      cases hok : (s.touch tag.queueIdx (.deviceId addr n)).1 with
      | false =>
        refine returns_ret ⟨_, hs' ▸ hdoing, ?_⟩
        have hput : (Target.put ⟨s.mem, []⟩ addr (deviceId.take n)).1 = _ :=
          put_eq_false (Prod.ext rfl hok)
        rw [hput]
        rfl
      | true =>
        refine returns_ret ⟨_, hs' ▸ hdoing, ?_⟩
        have hput : (Target.put ⟨s.mem, []⟩ addr (deviceId.take n)).1 = _ :=
          put_eq_true (Prod.ext rfl hok)
        have hlen : (deviceId.take n).length = n := by
          rw [List.length_take]
          exact Nat.min_eq_left hn
        rw [hput, hlen, wroteInto_cons [] hin]
        rfl
  · exact returns_ret ⟨[], h, rfl⟩

variable {g : Gathered}

/-- One head: it gets one reply, and its deed is on record. -/
theorem returns_takeHead {head : Nat} (h : Doing v₀ ⟨head, none, [], none⟩ ds s.toView) :
    Returns perform (takeHead dev tag head g) (fun s' g' => ∃ handled : Handled,
      g' = g.add handled ∧ handled.Right dev v₀.mem.space ∧
      handled.deed.head = head ∧ Doing v₀ handled.deed ds s'.toView) s := by
  refine returns_touch fun s₁ hs₁ => ?_
  have h₁ : Doing v₀ ⟨head, (s.touch tag.queueIdx (.collectChain head)).1,
      [], none⟩ ds s₁.toView := by
    rw [hs₁]
    exact h.note fun d => { d with
      chain := (s.touch tag.queueIdx (.collectChain head)).1 }
  split
  next hnone =>
    rw [hnone] at h₁
    refine returns_ret ⟨⟨_, .used 0⟩, ?_, ?_, rfl, h₁⟩
    · simp [Gathered.add, Handled.entry?, Handled.request?]
    · exact iff_of_true (Nat.zero_le _) nofun
  next chain hchain =>
    rw [hchain] at h₁
    refine seq ((returns_checkRequest h₁).mono fun s₂ r h₂ => ?_)
    cases r with
    | error len =>
      obtain ⟨rfl, writes, status, h₂, hone⟩ := h₂
      refine returns_ret ⟨⟨_, .used 1⟩, ?_, ?_, rfl, h₂⟩
      · simp [Gathered.add, Handled.entry?, Handled.request?]
      · refine statusLands_iff (n := 0) rfl ?_
        simp only [List.append_nil, hone, Nat.zero_add]
    | ok header =>
      obtain ⟨h₂, hcheck⟩ := h₂
      dsimp only
      split
      · refine returns_ret ⟨⟨_, .passed header chain⟩, ?_, ⟨rfl, hcheck⟩, rfl, h₂⟩
        simp [Gathered.add, Handled.entry?, Handled.request?]
      · refine seq ((returns_localRequest h₂).mono fun s₃ r h₃ => ?_)
        obtain ⟨writes, h₃, hlen⟩ := h₃
        refine returns_touch fun s₄ hs₄ => ?_
        obtain ⟨more, status, h₄, hone⟩ :=
          h₃.status (i := tag.queueIdx) chain r.1
        refine returns_ret ⟨⟨_, .used r.2⟩, ?_, ?_, rfl, hs₄ ▸ h₄⟩
        · simp [Gathered.add, Handled.entry?, Handled.request?]
        · rw [Handled.Right, hlen]
          refine statusLands_iff rfl ?_
          simp only [List.append_nil, wroteInto_append, hone]
          exact Nat.add_comm _ _

-- ==== the drain

/-- The heads taken since `v₀` are those of `hs`, in order, and the two lists
of the kick are their replies. -/
structure Taken (dev : Device) (v₀ : View) (hs : List Handled) (g : Gathered)
    (v : View) : Prop where
  requests : g.requests = hs.filterMap Handled.request?
  finished : g.finished = hs.filterMap Handled.entry?
  right : ∀ h ∈ hs, h.Right dev v₀.mem.space
  deeds : v.deeds = (hs.map Handled.deed).reverse ++ v₀.deeds
  aside : v.aside = v₀.aside
  space : v.mem.space = v₀.mem.space

variable {hs : List Handled} {v₁ v' : View}

theorem Taken.add {h : Handled} (ht : Taken dev v₀ hs g v) (hr : h.Right dev v₀.mem.space)
    (haside : v₁.aside = v.aside) (hmem : v₁.mem = v.mem)
    (hd : Doing v₁ h.deed v.deeds v') :
    Taken dev v₀ (hs ++ [h]) (g.add h) v' := by
  refine ⟨?_, ?_, ?_, ?_, ?_, ?_⟩
  · rw [List.filterMap_append, ← ht.requests]
    cases hq : h.request? <;> simp [Gathered.add, hq]
  · rw [List.filterMap_append, ← ht.finished]
    cases hq : h.entry? <;> simp [Gathered.add, hq]
  · intro h' hh'
    rcases List.mem_append.1 hh' with hold | hnew
    · exact ht.right h' hold
    · rw [List.mem_singleton.1 hnew]
      exact hr
  · rw [hd.deeds, ht.deeds]
    simp
  · rw [hd.aside, haside, ht.aside]
  · rw [hd.space, hmem, ht.space]

/-- A pop moves the queue and opens a deed for the head it yields. -/
theorem popAvail_spec (v : View) (i : Nat) :
    (v.popAvail i).2.aside = v.aside ∧ (v.popAvail i).2.mem = v.mem ∧
    (v.popAvail i).2.deeds = ((v.popAvail i).1.map fun head =>
      (⟨head, none, [], none⟩ : Deed)).toList ++ v.deeds := by
  unfold View.popAvail
  split
  · exact ⟨rfl, rfl, rfl⟩
  · exact ⟨rfl, rfl, rfl⟩

theorem returns_popHeads {n : Nat} (h : Taken dev v₀ hs g s.toView) :
    Returns perform (popHeads dev tag n g) (fun s' r => ∃ hs',
      Taken dev v₀ hs' r.2 s'.toView ∧ r.1 ≤ n ∧
      (r.1 = n → n = 0 ∨ (s.popAvail tag.queueIdx).1 = none ∧
        s'.toView = (s.popAvail tag.queueIdx).2)) s := by
  induction n generalizing s hs g with
  | zero => exact returns_ret ⟨hs, h, Nat.le_refl _, fun _ => .inl rfl⟩
  | succ n ih =>
    obtain ⟨haside, hmem, hdeeds⟩ := popAvail_spec s.toView tag.queueIdx
    refine seq (returns_call ?_)
    split
    next hnone =>
      have hnone : (s.popAvail tag.queueIdx).1 = none := hnone
      rw [hnone] at hdeeds
      refine returns_ret ⟨hs, ?_, Nat.le_refl _, fun _ => .inr ⟨hnone, rfl⟩⟩
      exact ⟨h.requests, h.finished, h.right, hdeeds.trans h.deeds,
        haside.trans h.aside, (congrArg GuestMem.space hmem).trans h.space⟩
    next head hsome =>
      have hsome : (s.popAvail tag.queueIdx).1 = some head := hsome
      rw [hsome] at hdeeds
      have hdoing : Doing (s.popAvail tag.queueIdx).2 ⟨head, none, [], none⟩ s.deeds
          (perform (.popAvail tag) s).2.toView := ⟨hdeeds, rfl, rfl⟩
      refine seq ((returns_takeHead hdoing).mono fun s₁ g₁ hhead => ?_)
      obtain ⟨handled, rfl, hright, -, hdone⟩ := hhead
      rw [hmem, h.space] at hright
      refine (ih (h.add hright haside hmem hdone)).mono fun s₂ r hr => ?_
      obtain ⟨hs', ht, hle, -⟩ := hr
      exact ⟨hs', ht, Nat.le_succ_of_le hle, fun heq => by omega⟩

theorem popAvail_queue (v : View) (i : Nat) :
    (v.popAvail i).2.queues i = ((v.queues i).popAvail v.mem).1 := by
  unfold View.popAvail
  split
  next heq => rw [heq]; exact update_self ..
  next heq => rw [heq]; exact update_self ..

theorem popAvail_eq_none (h : (v.popAvail i).1 = none) :
    ((v.queues i).popAvail v.mem).2 = none := by
  unfold View.popAvail at h
  split at h
  next heq => rw [heq]
  · cases h

theorem updateUsedEvent_space (q : Pci.VirtQueue) (m : GuestMem) :
    (q.updateUsedEvent m).space = m.space := by
  unfold Pci.VirtQueue.updateUsedEvent
  split
  · rfl
  · exact storeWord_space ..

/-- The variant of the drain: heads to the cap, then entries to skip. -/
noncomputable def leftOver (i left : Nat) (v : View) : Nat :=
  left * 2 ^ 16 + skips (v.queues i) v.mem

theorem leftOver_lt {left left' : Nat} (h : left' < left) :
    leftOver i left' v' < leftOver i left v := by
  have hlt : skips (v'.queues i) v'.mem < 2 ^ 16 := BitVec.isLt _
  have hmul := Nat.mul_le_mul_right (2 ^ 16) (Nat.succ_le_of_lt h)
  unfold leftOver
  omega

/-- A round that took no head, skipped an entry and goes on. -/
theorem leftOver_skip {left : Nat} (hnone : (v.popAvail i).1 = none) (hv : v₁ = (v.popAvail i).2)
    (hmove : (v₁.queues i).lastAvailIdx.toNat ≠ (v.queues i).lastAvailIdx.toNat)
    (hnew : (v₁.queues i).hasNewAvail ((v₁.queues i).updateUsedEvent v₁.mem) = true) :
    leftOver i left { v₁ with mem := (v₁.queues i).updateUsedEvent v₁.mem }
      < leftOver i left v := by
  subst hv
  have hpop : (v.queues i).popAvail v.mem = ((v.popAvail i).2.queues i, none) :=
    Prod.ext (popAvail_queue v i).symm (popAvail_eq_none hnone)
  rw [(popAvail_spec v i).2.1] at hnew ⊢
  have hless := skips_decreases hpop (fun heq => hmove (congrArg BitVec.toNat heq)) hnew
  exact Nat.add_lt_add_left hless _

/-- The drain returns, from any ring, and every head it took has its
reply. -/
theorem returns_drainAvail {max : Nat} : Returns perform (drainAvail dev tag max) (fun s' g => ∃ hs,
      Taken dev s.toView hs g s'.toView) s := by
  refine returns_loop (fun (l : Nat × Gathered) s' =>
      ∃ hs, Taken dev s.toView hs l.2 s'.toView)
    (fun l s' => leftOver tag.queueIdx l.1 s'.toView)
    ⟨[], rfl, rfl, nofun, rfl, rfl, rfl⟩ ?_
  rintro ⟨left, g⟩ s₀ ⟨hs, h⟩
  refine seq (returns_call (seq ((returns_popHeads h).mono ?_)))
  rintro s₁ ⟨left', g'⟩ ⟨hs', h₁, hle, hpop⟩
  refine seq (returns_call (seq (returns_call ?_)))
  have h₂ : Taken dev s.toView hs' g' (perform (.armEvent tag) s₁).2.toView :=
    ⟨h₁.requests, h₁.finished, h₁.right, h₁.deeds, h₁.aside,
      (updateUsedEvent_space _ _).trans h₁.space⟩
  split
  · exact returns_ret ⟨hs', h₂⟩
  next hon =>
    refine seq (returns_call ?_)
    split
    next hnew =>
      refine returns_ret ⟨⟨hs', h₂⟩, ?_⟩
      rcases Nat.lt_or_eq_of_le hle with hless | hsame
      · exact leftOver_lt hless
      · subst hsame
        rw [not_or] at hon
        obtain ⟨hnone, hview⟩ := (hpop rfl).resolve_left hon.2
        exact leftOver_skip hnone hview hon.1 hnew
    · exact returns_ret ⟨hs', h₂⟩

-- ==== the kick

/-- The request a worker gets. -/
def BlkIoRequest.of (c : Completion) (tag : RingTag)
    (r : Nat × VirtioBlkReqHdr × List ChainBuf) : BlkIoRequest :=
  ⟨r.2.1.rtype, r.2.1.sector, r.2.2, r.1, c, tag⟩

/-- The used entries and the requests of a kick are the replies to the heads
it took, each in the order of the ring. -/
def Answered (dev : Device) (v v' : View) : Prop :=
  ∃ (hs : List Handled) (c : Completion) (tag : RingTag),
    v'.deeds = (hs.map Handled.deed).reverse ++ v.deeds ∧
    v'.used = v.used ++ hs.filterMap Handled.entry? ∧
    v'.sent = v.sent ++ (hs.filterMap Handled.request?).map (BlkIoRequest.of c tag) ∧
    (∀ h ∈ hs, h.Right dev v.mem.space) ∧ v'.reached = v.reached

theorem returns_enterCurrent {q : Nat} : Returns perform (enterCurrent dev q).run
      (fun s' _ => s'.toView = s.toView) s := by
  refine returns_ask (fun _ => rfl) fun isOpen s₁ h₁ => ?_
  split
  · split
    · refine returns_ask (fun _ => rfl) fun _ s₂ h₂ => ?_
      refine returns_ask (fun _ => rfl) fun isOpen s₃ h₃ => ?_
      have hs := h₃.trans (h₂.trans h₁)
      split
      · refine returns_ask (fun _ => rfl) fun _ s₄ h₄ => ?_
        refine returns_ask (fun _ => rfl) fun _ s₅ h₅ => ?_
        exact returns_ret (h₅.trans (h₄.trans hs))
      · refine returns_ask (fun _ => rfl) fun _ s₄ h₄ => ?_
        exact returns_ret (h₄.trans hs)
    · exact returns_ret h₁
  · exact returns_ret h₁

theorem getCompletion_spec (v : View) (i : Nat) :
    (v.getCompletion i).mem = v.mem ∧ (v.getCompletion i).deeds = v.deeds ∧
    (v.getCompletion i).used = v.used ∧ (v.getCompletion i).sent = v.sent ∧
    (v.getCompletion i).reached = v.reached := by
  unfold View.getCompletion
  split
  · exact ⟨rfl, rfl, rfl, rfl, rfl⟩
  · exact ⟨rfl, rfl, rfl, rfl, rfl⟩

theorem publishBatch_spec (v : View) (i : Nat) (entries : List (Nat × Nat)) :
    (v.publishBatch i entries).2.used = v.used ++ entries ∧
    (v.publishBatch i entries).2.sent = v.sent ∧
    (v.publishBatch i entries).2.deeds = v.deeds ∧
    (v.publishBatch i entries).2.reached = v.reached := by
  unfold View.publishBatch Pci.VirtioCompletion.publishBatch
  dsimp only
  split
  next hnone =>
    split at hnone
    next hempty =>
      obtain rfl := List.map_eq_nil_iff.mp hempty
      exact ⟨(List.append_nil _).symm, rfl, rfl, rfl⟩
    · cases hnone
  · exact ⟨rfl, rfl, rfl, rfl⟩

/-- Every request of a kick goes to a worker, in order. -/
theorem returns_dispatches {c : Completion}
    {requests : List (Nat × VirtioBlkReqHdr × List ChainBuf)} :
    Returns perform (requests.forM fun (head, header, chain) =>
        dispatch dev tag c head header chain)
      (fun s' _ => s'.toView = { s.toView with
        sent := s.sent ++ requests.map (BlkIoRequest.of c tag) }) s := by
  refine returns_forM (fun rest s' => ∃ gone, requests = gone ++ rest ∧ s'.toView = { s.toView with
      sent := s.sent ++ gone.map (BlkIoRequest.of c tag) }) ⟨[], rfl, ?_⟩ ?_ ?_
  · simp
  · rintro ⟨head, header, chain⟩ rest s' ⟨gone, hgone, hs'⟩
    refine returns_ask (fun _ => rfl) fun n s₁ h₁ => returns_call ?_
    refine ⟨gone ++ [(head, header, chain)], by simp [hgone], ?_⟩
    show ({ s₁.toView with sent := s₁.sent ++ [_] } : View) = _
    rw [h₁, hs']
    simp [BlkIoRequest.of]
  · rintro s' ⟨gone, hgone, hs'⟩
    rw [List.append_nil] at hgone
    rw [hgone]
    exact hs'

/-- A kick returns, whatever the guest put in memory, and answers every head
it took. -/
theorem returns_notifyQueue {q : Nat} : Returns perform (notifyQueue dev q)
      (fun s' _ => Answered dev s.toView s'.toView) s := by
  refine seq (returns_enterCurrent.mono fun s₁ r h₁ => ?_)
  cases r with
  | error e =>
    refine returns_ret ⟨[], ⟨0, 0, 0⟩, ⟨0, 0⟩, ?_⟩
    rw [h₁]
    simp
  | ok session =>
    refine seq (returns_call (seq (returns_call ?_)))
    refine seq (returns_drainAvail.mono fun s₂ g h₂ => ?_)
    obtain ⟨hs, h₂⟩ := h₂
    refine seq (returns_call ?_)
    refine returns_ask (fun _ => rfl) fun _ s₃ h₃ => ?_
    refine seq (returns_dispatches.mono fun s₄ _ h₄ => returns_ret ?_)
    obtain ⟨gmem, gdeeds, gused, gsent, greached⟩ :=
      getCompletion_spec s₁.toView q
    obtain ⟨pused, psent, pdeeds, preached⟩ :=
      publishBatch_spec s₂.toView session.tag.queueIdx g.finished
    have h₃ : s₃.toView = (s₂.publishBatch session.tag.queueIdx g.finished).2 := h₃
    have haside : s₂.aside = (s₁.getCompletion q).aside := h₂.aside
    simp only [View.aside, Prod.mk.injEq] at haside
    obtain ⟨-, -, -, areached, aused, asent⟩ := haside
    refine ⟨hs, (perform (.getCompletion q session.intr) s₁).1, session.tag, ?_, ?_, ?_, ?_, ?_⟩
    · rw [h₄]
      rw [h₃, pdeeds, h₂.deeds, ← h₁]
      exact congrArg (_ ++ ·) gdeeds
    · rw [h₄]
      rw [h₃, pused, aused, gused, h₁, h₂.finished]
    · rw [h₄, ← h₂.requests]
      rw [h₃, psent, asent, gsent, h₁]
    · have hright := h₂.right
      intro h hh
      have hr := hright h hh
      rw [← h₁, ← gmem]
      exact hr
    · rw [h₄]
      rw [h₃, preached, areached, greached, h₁]

end

end Rshyve.Virtio.Blk
