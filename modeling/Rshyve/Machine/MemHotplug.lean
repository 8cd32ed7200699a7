/-
# Memory hot-add

`vmm-machine/src/hotplug/mem.rs` with the segment ids of
`vmm-core/src/mem/segid.rs`: the window above boot RAM, the engine that fills
it from the front, and the kernel's segments, which are never freed.

# What stands for what

- An add holds the engine's lock, so adds run one after the other. The ids
  are shared with devices: `elsewhere` is an id taken by one of them, before
  an add or while the mapper runs. Such an id counts as a segment.
- `Mapped` is what the mapper answers. Whether a failure has left a segment
  behind is the mapper's to say. `ram` are the ranges it has put in place.
- A `usize` has 64 bits. Events for the guest are left out.
-/
import Rshyve.Mem.PhysMap

namespace Rshyve.Machine

open Mem (pageSize mmioHoleBase mmioHoleEnd hex)

-- ==== the window

def maxSlots : Nat := 8
def vmMaxMemsegs : Int := 5

/-- The errors of the register file. -/
inductive SlotError where
  | noSuchSlot (slot slots : Nat)
  | emptyRegion (slot : Nat)
  | regionWraps (slot base len : Nat)
  deriving DecidableEq, Repr

inductive MemHotplugError where
  | badWindow (reason : String)
  | emptyRequest
  | noSlots (slots : Nat)
  | windowFull (asked free : Nat)
  | noSegment (limit : Int)
  | map (reason : String)
  | registers (reason : SlotError)
  deriving DecidableEq, Repr

structure MemWindow where
  base : Nat
  size : Nat
  slotSize : Nat
  slotSize_pos : slotSize ≠ 0
  base_le : mmioHoleEnd ≤ base
  fits : base + size < 2 ^ 64

namespace MemWindow

def new (base size slotSize : Nat) : Except MemHotplugError MemWindow :=
  if h : slotSize = 0 ∨ slotSize % pageSize ≠ 0 then
    .error (.badWindow s!"slot size {hex slotSize} is not page sized")
  else if size = 0 ∨ size % slotSize ≠ 0 then
    .error (.badWindow s!"size {hex size} is not a multiple of the {hex slotSize} slot")
  else if base % pageSize ≠ 0 then
    .error (.badWindow s!"base {hex base} is not page aligned")
  else if hbase : base < mmioHoleEnd then
    .error (.badWindow s!"base {hex base} is below the {hex mmioHoleEnd} line")
  else if hfits : base + size ≥ 2 ^ 64 then
    .error (.badWindow s!"[{hex base}, +{hex size}) runs off the address space")
  else
    .ok ⟨base, size, slotSize, fun h0 => h (.inl h0), Nat.not_lt.mp hbase, Nat.not_le.mp hfits⟩

def slots (w : MemWindow) : Nat := min (w.size / w.slotSize) maxSlots

def roundUp (w : MemWindow) (bytes : Nat) : Except MemHotplugError Nat :=
  if bytes = 0 then .error .emptyRequest
  else
    let len := (bytes + w.slotSize - 1) / w.slotSize * w.slotSize
    if len < 2 ^ 64 then .ok len else .error (.windowFull bytes w.size)

end MemWindow

def hotAddWindow (memSize maxMem slotSize : Nat) : Except MemHotplugError MemWindow :=
  if slotSize = 0 then
    .error (.badWindow "a slot size of 0 describes no memory")
  else
    let base := mmioHoleEnd + (memSize - mmioHoleBase)
    if base ≥ 2 ^ 64 then
      .error (.badWindow s!"{memSize} bytes of RAM leaves no window")
    else if maxMem % slotSize ≠ 0 then
      .error (.badWindow (s!"a window of {hex maxMem} does not divide into " ++
        s!"{hex slotSize} slots"))
    else if maxMem / slotSize > maxSlots then
      .error (.badWindow (s!"a {hex maxMem} window of {hex slotSize} slots " ++
        s!"needs {maxMem / slotSize} slots, and the guest has {maxSlots}; " ++
        "raise the slot size"))
    else MemWindow.new base maxMem slotSize

-- ==== the engine

/-- The window, and the slots of the register file. -/
structure Engine where
  window : MemWindow
  regSlots : Nat

def Engine.slots (e : Engine) : Nat := min e.window.slots e.regSlots

structure State where
  used : Nat
  nextSlot : Nat
  /-- the next id of `SegidAlloc` -/
  segid : Int
  /-- the base and length in each register slot -/
  regs : Nat → Option (Nat × Nat)
  -- the kernel
  segments : List Int
  ram : List (Nat × Nat)

def State.fresh (segid : Int) : State := ⟨0, 0, segid, fun _ => none, [], []⟩

/-- `SegidAlloc::release`: the next id. -/
def release (next segid : Int) : Int :=
  if segid + 1 < 2 ^ 31 ∧ next = segid + 1 then segid else next

/-- A device takes an id. -/
def State.elsewhere (s : State) : State :=
  if s.segid < vmMaxMemsegs then
    { s with segid := s.segid + 1, segments := s.segid :: s.segments }
  else s

/-- `MemHotplug::set_slot`. -/
def setSlot (slots slot base len : Nat) : Except SlotError Unit :=
  if len = 0 then .error (.emptyRegion slot)
  else if base + len ≥ 2 ^ 64 then .error (.regionWraps slot base len)
  else if slot ≥ slots then .error (.noSuchSlot slot slots)
  else .ok ()

/-- The answer of `add_ram`. -/
inductive Mapped where
  | done
  | failed (error : MemHotplugError) (segmentSpent : Bool)

/-- `add_memory`, with what the mapper answers and how many ids are taken
elsewhere meanwhile. -/
def addMemory (e : Engine) (s : State) (bytes : Nat) (answer : Mapped)
    (others : Nat) : Except MemHotplugError Nat × State :=
  match e.window.roundUp bytes with
  | .error err => (.error err, s)
  | .ok len =>
    let slot := s.nextSlot
    let free := e.window.size - s.used
    let base := e.window.base + s.used
    if slot ≥ e.slots then (.error (.noSlots e.slots), s)
    else if len > free then (.error (.windowFull len free), s)
    else if base ≥ 2 ^ 64 then (.error (.windowFull len free), s)
    else if s.segid ≥ vmMaxMemsegs then
      (.error (.noSegment vmMaxMemsegs), s)
    else
      let segid := s.segid
      let s := State.elsewhere^[others] { s with segid := segid + 1 }
      match answer with
      | .failed err true =>
        (.error err, { s with segments := segid :: s.segments })
      | .failed err false =>
        (.error err, { s with segid := release s.segid segid })
      | .done =>
        let s :=
          { s with
            nextSlot := slot + 1
            used := s.used + len
            segments := segid :: s.segments
            ram := s.ram ++ [(base, len)] }
        match setSlot e.regSlots slot base len with
        | .error err => (.error (.registers err), s)
        | .ok () =>
          (.ok slot,
            { s with regs := Function.update s.regs slot (base, len) })

inductive Event where
  | add (bytes : Nat) (answer : Mapped) (others : Nat)
  | elsewhere

/-- The answers so far, and the state. -/
def Engine.step (e : Engine) : List (Except MemHotplugError Nat) × State → Event →
      List (Except MemHotplugError Nat) × State
  | (answers, s), .add bytes answer others =>
    let (r, s) := addMemory e s bytes answer others
    (answers ++ [r], s)
  | (answers, s), .elsewhere => (answers, s.elsewhere)

def Engine.run (e : Engine) (segid : Int) (events : List Event) :
    List (Except MemHotplugError Nat) × State :=
  events.foldl e.step ([], .fresh segid)

-- ==== the ids

/-- No id has two segments, and those to come have none. -/
def Owned (s : State) : Prop :=
  s.segments.Nodup ∧ ∀ i ∈ s.segments, i < s.segid

/-- `i` has been handed out and has no segment. -/
def Spare (i : Int) (s : State) : Prop := i < s.segid ∧ i ∉ s.segments

/-- The two states differ in the ids at most. -/
structure SameRam (s s' : State) : Prop where
  used : s'.used = s.used
  nextSlot : s'.nextSlot = s.nextSlot
  regs : s'.regs = s.regs
  ram : s'.ram = s.ram

theorem elsewhere_spec (s : State) : SameRam s s.elsewhere ∧ (Owned s → Owned s.elsewhere) ∧
      ∀ i, Spare i s → Spare i s.elsewhere := by
  unfold State.elsewhere
  split
  · refine ⟨⟨rfl, rfl, rfl, rfl⟩, fun h => ⟨?_, fun i hi => ?_⟩, fun i hi => ⟨?_, ?_⟩⟩
    · exact List.nodup_cons.mpr ⟨fun hmem => Int.lt_irrefl _ (h.2 _ hmem), h.1⟩
    · rcases List.mem_cons.mp hi with rfl | hi
      · exact Int.lt_succ _
      · exact Int.lt_trans (h.2 i hi) (Int.lt_succ _)
    · exact Int.lt_trans hi.1 (Int.lt_succ _)
    · intro hmem
      rcases List.mem_cons.mp hmem with rfl | hmem
      · exact Int.lt_irrefl _ hi.1
      · exact hi.2 hmem
  · exact ⟨⟨rfl, rfl, rfl, rfl⟩, id, fun _ => id⟩

theorem elsewhere_iterate (n : Nat) (s : State) : SameRam s (State.elsewhere^[n] s) ∧
      (Owned s → Owned (State.elsewhere^[n] s)) ∧
      ∀ i, Spare i s → Spare i (State.elsewhere^[n] s) := by
  induction n generalizing s with
  | zero => exact ⟨⟨rfl, rfl, rfl, rfl⟩, id, fun _ => id⟩
  | succ n ih =>
    obtain ⟨hram, howned, hspare⟩ := elsewhere_spec s
    obtain ⟨hram', howned', hspare'⟩ := ih s.elsewhere
    refine ⟨⟨hram'.used.trans hram.used, hram'.nextSlot.trans hram.nextSlot,
      hram'.regs.trans hram.regs, hram'.ram.trans hram.ram⟩,
      fun h => howned' (howned h), fun i hi => hspare' i (hspare i hi)⟩

/-- A segment for a spare id. -/
theorem Owned.create {s : State} {i : Int} (h : Owned s) (hi : Spare i s) :
    (i :: s.segments).Nodup ∧ ∀ j ∈ i :: s.segments, j < s.segid :=
  ⟨List.nodup_cons.mpr ⟨hi.2, h.1⟩, List.forall_mem_cons.mpr ⟨hi.1, h.2⟩⟩

/-- An id without a segment can go back. -/
theorem Owned.release {s : State} {i : Int} (h : Owned s) (hi : Spare i s) :
    ∀ j ∈ s.segments, j < release s.segid i := by
  intro j hj
  have hlt := h.2 j hj
  have hne : j ≠ i := fun e => hi.2 (e ▸ hj)
  unfold Machine.release
  split <;> omega

-- ==== one add

variable {e : Engine} {s : State} {bytes : Nat}

structure Inv (e : Engine) (s : State) : Prop where
  used : s.used = (s.ram.map Prod.snd).sum
  fits : s.used ≤ e.window.size
  count : s.ram.length = s.nextSlot
  inside : ∀ r ∈ s.ram, 0 < r.2 ∧ e.window.base ≤ r.1 ∧ r.1 + r.2 ≤ e.window.base + s.used
  apart : s.ram.Pairwise fun a b => a.1 + a.2 ≤ b.1
  owned : Owned s

variable {w : MemWindow} {len : Nat}

theorem roundUp_pos (h : w.roundUp bytes = .ok len) : 0 < len := by
  unfold MemWindow.roundUp at h
  split at h
  · cases h
  next hbytes =>
    dsimp only at h
    split at h
    · cases h
      have hslot := Nat.pos_of_ne_zero w.slotSize_pos
      exact Nat.mul_pos (Nat.div_pos (by omega) hslot) hslot
    · cases h

/-- What the checks ahead of the mapper let through. -/
structure Admitted (e : Engine) (s : State) (bytes len : Nat) : Prop where
  rounded : e.window.roundUp bytes = .ok len
  slot : s.nextSlot < e.slots
  room : len ≤ e.window.size - s.used
  segid : s.segid < vmMaxMemsegs

/-- The three ways an add can go. -/
inductive Outcome (e : Engine) (s : State) (bytes : Nat) :
    Mapped → Nat → Except MemHotplugError Nat × State → Prop
  | refused {answer : Mapped} {others : Nat} (err : MemHotplugError)
      (h : ∀ len, ¬ Admitted e s bytes len) :
      Outcome e s bytes answer others (.error err, s)
  | failed {others len : Nat} {s' : State} (err : MemHotplugError) (spent : Bool)
      (h : Admitted e s bytes len) (hram : SameRam s s') (howned : Owned s')
      (hback : spent = false → others = 0 → s' = s) :
      Outcome e s bytes (.failed err spent) others (.error err, s')
  | added {others len : Nat} {s' : State} (h : Admitted e s bytes len)
      (hused : s'.used = s.used + len) (hslot : s'.nextSlot = s.nextSlot + 1)
      (hram : s'.ram = s.ram ++ [(e.window.base + s.used, len)])
      (howned : Owned s') :
      Outcome e s bytes .done others (.ok s.nextSlot, s')

/-- The register file takes every range that has been mapped. -/
theorem setSlot_ok (hadm : Admitted e s bytes len) :
    setSlot e.regSlots s.nextSlot (e.window.base + s.used) len = .ok () := by
  have hpos := roundUp_pos hadm.rounded
  have hfits := e.window.fits
  have hroom := hadm.room
  have hslot : s.nextSlot < e.regSlots :=
    Nat.lt_of_lt_of_le hadm.slot (Nat.min_le_right _ _)
  unfold setSlot
  rw [if_neg (by omega), if_neg (by omega), if_neg (by omega)]

theorem outcome (h : Inv e s) (bytes : Nat) (answer : Mapped) (others : Nat) :
    Outcome e s bytes answer others (addMemory e s bytes answer others) := by
  unfold addMemory
  cases hround : e.window.roundUp bytes with
  | error err =>
    refine .refused err fun len hadm => ?_
    rw [hadm.rounded] at hround
    cases hround
  | ok len =>
    -- a check that fails leaves nothing to admit
    have hrefused {err : MemHotplugError} (hno : ¬ Admitted e s bytes len) :
        Outcome e s bytes answer others (.error err, s) := by
      refine .refused err fun len' hadm => hno ?_
      have hlen : Except.ok len' = Except.ok len :=
        hadm.rounded.symm.trans hround
      cases hlen
      exact hadm
    dsimp only
    split
    next hslot => exact hrefused fun hadm => Nat.not_le.mpr hadm.slot hslot
    next hslot =>
    split
    next hroom => exact hrefused fun hadm => Nat.not_le.mpr hroom hadm.room
    next hroom =>
    split
    next hbase =>
      have hfits := e.window.fits
      have hused := h.fits
      omega
    next hbase =>
    split
    next hseg => exact hrefused fun hadm => Int.not_le.mpr hadm.segid hseg
    next hseg =>
      have hadm : Admitted e s bytes len :=
        ⟨hround, Nat.not_le.mp hslot, Nat.not_lt.mp hroom, Int.not_le.mp hseg⟩
      obtain ⟨hram, howned, hspare⟩ :=
        elsewhere_iterate others { s with segid := s.segid + 1 }
      have howned := howned ⟨h.owned.1, fun i hi =>
        Int.lt_trans (h.owned.2 i hi) (Int.lt_succ _)⟩
      have hspare := hspare s.segid ⟨Int.lt_succ _, fun hmem =>
        Int.lt_irrefl _ (h.owned.2 _ hmem)⟩
      cases answer with
      | failed err spent =>
        cases spent with
        | true =>
          exact .failed err true hadm ⟨hram.used, hram.nextSlot, hram.regs, hram.ram⟩
            (howned.create hspare) nofun
        | false =>
          refine .failed err false hadm ⟨hram.used, hram.nextSlot, hram.regs, hram.ram⟩
            ⟨howned.1, howned.release hspare⟩ fun _ hnone => ?_
          subst hnone
          have hlimit : s.segid + 1 < 2 ^ 31 := by
            have hlt := hadm.segid
            unfold vmMaxMemsegs at hlt
            omega
          simp only [Function.iterate_zero, id_eq, release, and_true, if_pos hlimit]
      | done =>
        rw [setSlot_ok hadm]
        refine .added hadm ?_ rfl ?_ (howned.create hspare)
        · exact congrArg (· + len) hram.used
        · exact congrArg (· ++ [(e.window.base + s.used, len)]) hram.ram

/-- An add is admitted by what it reads of the state. -/
theorem Admitted.congr {s' : State} (h : Admitted e s bytes len)
    (hram : SameRam s s') (hseg : s'.segid < vmMaxMemsegs) :
    Admitted e s' bytes len :=
  ⟨h.rounded, hram.nextSlot ▸ h.slot, hram.used ▸ h.room, hseg⟩

theorem Inv.congr {s' : State} (h : Inv e s) (hram : SameRam s s')
    (howned : Owned s') : Inv e s' := by
  obtain ⟨hused, hslot, -, hram⟩ := hram
  refine ⟨?_, ?_, ?_, ?_, ?_, howned⟩
  · rw [hused, hram, h.used]
  · rw [hused]
    exact h.fits
  · rw [hram, hslot]
    exact h.count
  · rw [hram, hused]
    exact h.inside
  · rw [hram]
    exact h.apart

theorem Inv.add (h : Inv e s) (bytes : Nat) (answer : Mapped) (others : Nat) :
    Inv e (addMemory e s bytes answer others).2 := by
  have hout := outcome h bytes answer others
  generalize addMemory e s bytes answer others = r at hout ⊢
  cases hout with
  | refused => exact h
  | failed _ _ _ hram howned => exact h.congr hram howned
  | @added _ len s' hadm hused hslot hram howned =>
    have hpos := roundUp_pos hadm.rounded
    have hroom := hadm.room
    refine ⟨?_, ?_, ?_, fun r hr => ?_, ?_, howned⟩
    · rw [hram, hused, h.used]
      simp
    · rw [hused]
      omega
    · rw [hram, hslot, List.length_append, h.count]
      rfl
    · rw [hram] at hr
      rw [hused]
      rcases List.mem_append.mp hr with hr | hr
      · have hin := h.inside r hr
        omega
      · obtain rfl := List.mem_singleton.mp hr
        omega
    · rw [hram]
      refine List.pairwise_append.mpr ⟨h.apart, List.pairwise_singleton _ _, ?_⟩
      intro a ha b hb
      obtain rfl := List.mem_singleton.mp hb
      exact (h.inside a ha).2.2

-- ==== all adds

/-- The invariant, and the answers are the slots in turn. -/
def Sound (e : Engine) (r : List (Except MemHotplugError Nat) × State) : Prop :=
  Inv e r.2 ∧ r.1.filterMap Except.toOption = List.range r.2.nextSlot

theorem Sound.step {r : List (Except MemHotplugError Nat) × State}
    (h : Sound e r) (ev : Event) : Sound e (e.step r ev) := by
  obtain ⟨answers, s⟩ := r
  obtain ⟨hinv, hslots⟩ := h
  cases ev with
  | elsewhere =>
    obtain ⟨hram, howned, -⟩ := elsewhere_spec s
    refine ⟨hinv.congr hram (howned hinv.owned), ?_⟩
    exact hslots.trans (congrArg List.range hram.nextSlot.symm)
  | add bytes answer others =>
    refine ⟨hinv.add bytes answer others, ?_⟩
    have hout : Outcome e s bytes answer others _ :=
      outcome hinv bytes answer others
    unfold Engine.step
    dsimp only at hslots ⊢
    rw [List.filterMap_append, hslots]
    generalize addMemory e s bytes answer others = r at hout ⊢
    cases hout with
    | refused => exact List.append_nil _
    | failed _ _ _ hram _ =>
      rw [hram.nextSlot]
      exact List.append_nil _
    | added _ _ hslot _ _ =>
      rw [hslot, List.range_succ]
      rfl

theorem sound_run (e : Engine) (segid : Int) (events : List Event) :
    Sound e (e.run segid events) := by
  have hrun (r) (hr : Sound e r) : Sound e (events.foldl e.step r) := by
    induction events generalizing r with
    | nil => exact hr
    | cons ev events ih => exact ih _ (hr.step ev)
  refine hrun _ ⟨⟨rfl, Nat.zero_le _, rfl, nofun, .nil, .nil, nofun⟩, rfl⟩

theorem new_base {base size slotSize : Nat}
    (h : MemWindow.new base size slotSize = .ok w) : w.base = base := by
  unfold MemWindow.new at h
  iterate 5
    split at h
    · exact nomatch h
  exact Except.ok.inj h ▸ rfl

/-- The window of a machine starts where its RAM ends. -/
theorem hotAddWindow_base {memSize maxMem slotSize : Nat}
    (h : hotAddWindow memSize maxMem slotSize = .ok w) :
    w.base = mmioHoleEnd + (memSize - mmioHoleBase) := by
  unfold hotAddWindow at h
  dsimp only at h
  iterate 4
    split at h
    · exact nomatch h
  exact new_base h

/-- Two slots of a page, above a gigabyte of RAM. -/
def twoPages : Engine :=
  ⟨⟨mmioHoleEnd, 8192, 4096, by decide, by decide, by decide⟩, maxSlots⟩

end Rshyve.Machine
