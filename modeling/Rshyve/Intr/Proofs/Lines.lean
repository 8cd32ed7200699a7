/-
# The kernel's lines follow the pins

`Balanced` ties the levels and the kernel's counts to the places of the pins:

- the level of a line is the number of pins that count for it (`Counts`);
- a line is up in the kernel while its level is above zero, but for the
  moment in which the pin that holds the table has changed the level and the
  kernel has not been told (`LineOk`);
- the count of an ATPIC line is the number of lines routed to it that are up
  (`share`).

The last holds only while no route changes under a line that is up
(`keepsRoutes`): the kernel is told to lower the line that the register names
at that time, not the one that was raised (`rerouted_stays_high`). The IOAPIC
has no call for a pulse, and a pulse whose second half is refused stays up
too (`refused_pulse_stays_high`).
-/
import Rshyve.Intr.Proofs.Places

namespace Rshyve.Intr

open Conc Function

-- ==== the counts

deriving instance Fintype for Line

/-- How many lines are up that are routed to an ATPIC line. -/
def share (route : Line → Option Nat) (up : Line → Bool) (irq : Nat) : Nat :=
  (Finset.univ.filter fun e => up e = true ∧ route e = some irq).card

section Share

variable {route : Line → Option Nat} {up : Line → Bool} {e : Line}

theorem share_raise (route : Line → Option Nat) (up : Line → Bool) (he : up e = false) (irq : Nat) :
    share route (update up e true) irq =
      share route up irq + if route e = some irq then 1 else 0 := by
  have hmem : ∀ f, (update up e true f = true ∧ route f = some irq) ↔
      (f = e ∧ route e = some irq) ∨ (up f = true ∧ route f = some irq) := by
    intro f
    by_cases hf : f = e
    · subst hf
      simp
    · simp [hf]
  unfold share
  simp only [hmem]
  split
  next hr =>
    rw [← Finset.card_insert_of_notMem (a := e) (by simp [he])]
    congr 1
    ext f
    simp [hr]
  next hr => simp [hr]

theorem share_lower (route : Line → Option Nat) (he : up e = true) (irq : Nat) :
    share route up irq = share route (update up e false) irq +
        if route e = some irq then 1 else 0 := by
  have h := share_raise route (update up e false) (e := e) (update_self ..) irq
  rw [update_idem] at h
  rw [← h, ← he, update_eq_self]

/-- Routes that change only under lines that are not up. -/
theorem share_reroute {route' : Line → Option Nat}
    (h : ∀ e, up e = true → route' e = route e) (irq : Nat) :
    share route' up irq = share route up irq := by
  unfold share
  congr 1
  ext f
  simp only [Finset.mem_filter, Finset.mem_univ, true_and, and_congr_right_iff]
  intro hf
  rw [h f hf]

/-- The counts of the ATPIC after a call. -/
def tell (atpic : Nat → Nat) (op : PinOp) : Option Nat → Nat → Nat
  | none => atpic
  | some irq => Shared.count atpic irq op

/-- The kernel is told of a line, through the route it has. A pulse can go
anywhere. -/
theorem share_tell {atpic : Nat → Nat} {op : PinOp} {r : Option Nat}
    (h : ∀ irq, atpic irq = share route up irq) (he : up e = op.before)
    (hr : op ≠ .pulse → route e = r) (irq : Nat) :
    tell atpic op r irq = share route (update up e op.after) irq := by
  cases op with
  | assert =>
    rw [PinOp.after, share_raise route up he, hr nofun, ← h]
    cases r with
    | none => rfl
    | some a =>
      by_cases ha : irq = a
      · subst ha
        simp [tell, Shared.count]
      · simp [tell, Shared.count, ha, Ne.symm ha]
  | deassert =>
    have hl := share_lower route he irq
    rw [← h, hr nofun] at hl
    cases r with
    | none => simpa [tell, PinOp.after] using hl
    | some a =>
      by_cases ha : irq = a
      · subst ha
        simp [tell, Shared.count, PinOp.after, hl]
      · simpa [tell, Shared.count, ha, Ne.symm ha, PinOp.after] using hl
  | pulse =>
    rw [show PinOp.after .pulse = up e from he.symm, update_eq_self, ← h]
    cases r <;> rfl

end Share

/-- The pin in the middle of a change to a line. -/
def Mid (gh : Nat → Loc) (e : Line) : Option Loc → Prop
  | none => ∀ t, (gh t).wire.line = e → (gh t).stage.mid = false
  | some l => ∃ t, gh t = l ∧ l.wire.line = e ∧ l.stage.mid = true

/-- A line is up in the kernel while its level is above zero. In the middle
of a change the level is ahead of the kernel. -/
def LineOk (s : Shared) (up : Line → Bool) (e : Line) : Option Loc → Prop
  | none => up e = decide (0 < s.level e) ∧ s.ioapic e.ioapic = (up e).toNat
  | some l => s.level e = l.op.after.toNat ∧ up e = l.op.before ∧
      s.ioapic e.ioapic = if l.stage = .lowering then 1 else (up e).toNat

def Counts (e : Line) (l : Loc) : Prop := l.wire.line = e ∧ l.counts = true

structure Balanced (s : Shared) (gh : Nat → Loc) (up : Line → Bool) :
    Prop where
  level : ∀ e, Census (Counts e) gh (s.level e)
  lines : ∀ e o, Mid gh e o → LineOk s up e o
  routed : ∀ t r, (gh t).stage = .routed r → (gh t).op ≠ .pulse → s.route (gh t).wire.line = r
  beyond : ∀ irq, (∀ e : Line, e.ioapic ≠ irq) → s.ioapic irq = 0
  atpic : ∀ irq, s.atpic irq = share s.route up irq

section Steps

variable {pins : Nat → Wire} {s s' : Shared} {gh : Nat → Loc} {t : Nat}
  {c : Choice} {l l' : Loc} {up up' : Line → Bool}

theorem table_of_line {w w' : Wire} (h : w.line = w'.line) : w.table = w'.table := by
  cases w <;> cases w' <;> first | rfl | cases h

variable {e : Line}

theorem ioapic_inj {f : Line} (h : e.ioapic = f.ioapic) : e = f := by
  cases e with
  | isa i =>
    cases f with
    | isa j => exact congrArg Line.isa (Fin.ext h)
    | gsi n =>
      simp only [Line.ioapic, pciGsiBase] at h
      omega
  | gsi n =>
    cases f with
    | isa j =>
      simp only [Line.ioapic, pciGsiBase] at h
      omega
    | gsi m =>
      simp only [Line.ioapic, Nat.add_left_cancel_iff] at h
      exact congrArg Line.gsi (Fin.ext h)

/-- The pin in the middle of a change holds the table. -/
theorem mid_only (htied : Tied s.locks Loc.holds gh) (hin : (gh t).inTable = true) {u : Nat}
    (hline : (gh u).wire.line = (gh t).wire.line)
    (hmid : (gh u).stage.mid = true) : u = t := by
  have ht := (htied (gh t).wire.table t).mpr ⟨hin, rfl⟩
  have hu := (htied (gh t).wire.table u).mpr ⟨Loc.inTable_of_mid hmid, table_of_line hline⟩
  exact Option.some.inj (hu.symm.trans ht)

def Loc.midOf (l : Loc) : Option Loc := if l.stage.mid then some l else none

theorem mid_own (htied : Tied s.locks Loc.holds gh) (hl : gh t = l)
    (hin : l.inTable = true) (o : Option Loc) :
    Mid gh l.wire.line o ↔ o = l.midOf := by
  subst hl
  unfold Loc.midOf
  constructor
  · intro h
    cases o with
    | none => rw [h t rfl]; rfl
    | some m =>
      obtain ⟨u, rfl, hline, hmid⟩ := h
      obtain rfl := mid_only htied hin hline hmid
      rw [if_pos hmid]
  · rintro rfl
    by_cases hmid : (gh t).stage.mid = true
    · rw [if_pos hmid]
      exact ⟨t, rfl, rfl, hmid⟩
    · rw [if_neg hmid]
      intro u hline
      by_contra hu
      rw [Bool.not_eq_false] at hu
      obtain rfl := mid_only htied hin hline hu
      exact hmid hu

variable {o : Option Loc}

/-- A step changes nothing on the other lines, and nothing on its own outside
of any change. -/
theorem mid_update {e : Line} {o : Option Loc} (hl : gh t = l) (hw : l'.wire = l.wire)
    (hquiet : e = l.wire.line → l.stage.mid = false ∧ l'.stage.mid = false)
    (h : Mid (update gh t l') e o) : Mid gh e o := by
  cases o with
  | none =>
    intro u hline
    by_cases hu : u = t
    · subst hu
      rw [hl] at hline ⊢
      exact (hquiet hline.symm).1
    · have hnone := h u
      rw [update_of_ne hu] at hnone
      exact hnone hline
  | some m =>
    obtain ⟨u, hm, hline, hmid⟩ := h
    have hu : u ≠ t := by
      rintro rfl
      rw [update_self] at hm
      subst hm
      rw [(hquiet (by rw [← hline, hw])).2] at hmid
      cases hmid
    rw [update_of_ne hu] at hm
    exact ⟨u, hm, hline, hmid⟩

theorem LineOk.congr (h : LineOk s up e o) (hlevel : s'.level e = s.level e)
    (hioapic : s'.ioapic e.ioapic = s.ioapic e.ioapic) (hup : up' e = up e) :
    LineOk s' up' e o := by
  cases o <;>
  · unfold LineOk at *
    rw [hlevel, hioapic, hup]
    exact h

theorem route_congr (hpir : s'.pir = s.pir) : s'.route = s.route := by
  funext e
  cases e with
  | isa irq => rfl
  | gsi n => simp only [Shared.route, hpir]

variable {counts : Nat → Nat}

theorem count_other (op : PinOp) {irq irq' : Nat}
    (h : irq' ≠ irq) : Shared.count counts irq op irq' = counts irq' := by
  cases op <;> simp [Shared.count, h]

/-- A line that is told of a change follows it. -/
theorem count_told (op : PinOp) {irq : Nat} (h : counts irq = op.before.toNat) :
    Shared.count counts irq op irq = op.after.toNat := by
  cases op <;> simp [Shared.count, h, PinOp.before, PinOp.after]

/-- The steps outside of the tables leave the counts alone. -/
theorem counts_exec {a : Ans l.todo} (hl : l.counting = false)
    (hex : Shared.exec t c l.todo s = some (a, s')) :
    (s'.level = s.level ∧ s'.pir = s.pir ∧ s'.atpic = s.atpic ∧
      s'.ioapic = s.ioapic) ∧ (l.next l.todo a).stage.mid = false := by
  obtain ⟨w, op, flag, stage⟩ := l
  cases stage with
  | locked | due | routed _ | lowering | refused => cases hl
  | ready | settled _ =>
    obtain ⟨locks, -, heq⟩ := Option.map_eq_some_iff.mp hex
    cases heq
    exact ⟨⟨rfl, rfl, rfl, rfl⟩, rfl⟩
  | called =>
    cases hex
    refine ⟨⟨rfl, rfl, rfl, rfl⟩, ?_⟩
    cases op <;> cases s.asserted t <;> rfl
  | done went =>
    cases op <;>
    · cases hex
      exact ⟨⟨rfl, rfl, rfl, rfl⟩, rfl⟩
  | rest | going | ended =>
    cases hex
    exact ⟨⟨rfl, rfl, rfl, rfl⟩, rfl⟩

theorem route_pci (s : Shared) (slot pin : Nat) :
    s.route (Wire.pci slot pin).line = atpicIrq (s.pir (pirqIdx slot pin)) := by
  have hidx : (4 + slot + pin) % 8 % 4 = (slot + pin) % 4 := by omega
  simp only [Shared.route, Wire.line, pirqIdx, hidx]

section Pin

variable (h : Balanced s gh up) (hl : gh t = l)
include h hl

/-- The level of a line while what its pin counts for does not change. -/
theorem Balanced.level_same (hw : l'.wire = l.wire) (hcounts : l'.counts = l.counts) (e : Line) :
    Census (Counts e) (update gh t l') (s.level e) := by
  refine (h.level e).same ?_
  rw [hl, Counts, Counts, hw, hcounts]

theorem Balanced.quiet (hw : l'.wire = l.wire) (hcounts : l'.counts = l.counts)
    (hmid : l.stage.mid = false) (hmid' : l'.stage.mid = false)
    (hs : s'.level = s.level ∧ s'.pir = s.pir ∧ s'.atpic = s.atpic ∧ s'.ioapic =
      s.ioapic) : Balanced s' (update gh t l') up := by
  obtain ⟨hlevel, hpir, hatpic, hioapic⟩ := hs
  have hroute := route_congr hpir
  refine ⟨fun e => ?_, fun e o hm => ?_, fun u r => ?_, ?_, ?_⟩
  · rw [hlevel]
    exact h.level_same hl hw hcounts e
  · have hold := h.lines e o (mid_update hl hw (fun _ => ⟨hmid, hmid'⟩) hm)
    exact hold.congr (congrFun hlevel e) (congrFun hioapic _) rfl
  · by_cases hu : u = t
    · subst hu
      rw [update_self]
      intro hr
      rw [hr] at hmid'
      cases hmid'
    · rw [update_of_ne hu, hroute]
      exact h.routed u r
  · rw [hioapic]
    exact h.beyond
  · rw [hatpic, hroute]
    exact h.atpic

/-- The line of a pin in the middle of a change. -/
theorem Balanced.midLine (hmid : l.stage.mid = true) :
    s.level l.wire.line = l.op.after.toNat ∧ up l.wire.line = l.op.before ∧
      s.ioapic l.wire.line.ioapic = if l.stage = .lowering then 1 else (up l.wire.line).toNat :=
  h.lines _ (some l) ⟨t, hl, rfl, hmid⟩

/-- A level that moves with what its pin counts for. -/
theorem Balanced.level_own {n : Nat} (hw : l'.wire = l.wire)
    (hn : n + l.counts.toNat = s.level l.wire.line + l'.counts.toNat) (e : Line) :
    Census (Counts e) (update gh t l') (update s.level l.wire.line n e) := by
  by_cases he : e = l.wire.line
  · subst he
    rw [update_self]
    cases hc : l.counts with
    | false =>
      have hold : ¬ Counts l.wire.line (gh t) := by
        rw [hl, Counts, hc]
        simp
      cases hc' : l'.counts with
      | false =>
        obtain rfl : n = s.level l.wire.line := by simpa [hc, hc'] using hn
        exact h.level_same hl hw (hc'.trans hc.symm) _
      | true =>
        obtain rfl : n = s.level l.wire.line + 1 := by
          simpa [hc, hc'] using hn
        exact (h.level _).enter ⟨congrArg Wire.line hw, hc'⟩ hold
    | true =>
      have hold : Counts l.wire.line (gh t) := by
        rw [hl]
        exact ⟨rfl, hc⟩
      cases hc' : l'.counts with
      | true =>
        obtain rfl : n = s.level l.wire.line := by simpa [hc, hc'] using hn
        exact h.level_same hl hw (hc'.trans hc.symm) _
      | false =>
        have hn : n + 1 = s.level l.wire.line := by simpa [hc, hc'] using hn
        have hleft := ((h.level l.wire.line).leave (l := l') (by simp [Counts, hc']) hold).2
        rwa [← hn] at hleft
  · rw [update_of_ne he]
    refine (h.level e).same (iff_of_false ?_ ?_)
    · exact fun hc => he (by rw [← hc.1, hw])
    · rw [hl]
      exact fun hc => he hc.1.symm

/-- The level of a line with a pin that counts is above zero. -/
theorem Balanced.level_pos (hc : l.counts = true) : 0 < s.level l.wire.line := by
  by_contra hpos
  have hzero := h.level l.wire.line
  rw [Nat.eq_zero_of_not_pos hpos] at hzero
  refine hzero.not_of_zero t ?_
  rw [hl]
  exact ⟨rfl, hc⟩

variable (hseat : Seated pins s gh)
include hseat

/-- A pin that holds the table changes its own line. -/
theorem Balanced.own (hin : l.inTable = true)
    (hseat' : Seated pins s' (update gh t l')) (hin' : l'.inTable = true)
    (hpir : s'.pir = s.pir)
    (hlevel : ∀ e, Census (Counts e) (update gh t l') (s'.level e))
    (hother : ∀ e, e ≠ l.wire.line → s'.level e = s.level e ∧ up' e = up e)
    (hioapic : ∀ irq, irq ≠ l.wire.line.ioapic → s'.ioapic irq = s.ioapic irq)
    (hown : LineOk s up l.wire.line l.midOf → LineOk s' up' l.wire.line l'.midOf)
    (hrouted : ∀ r, l'.stage = .routed r → l'.op ≠ .pulse → s.route l.wire.line = r)
    (hatpic : ∀ irq, s'.atpic irq = share s.route up' irq) :
    Balanced s' (update gh t l') up' := by
  have hroute := route_congr hpir
  have hw : l'.wire = l.wire := by
    have hw' := hseat'.wire t
    rw [update_self] at hw'
    rw [hw', ← hl, hseat.wire]
  refine ⟨hlevel, fun e o hm => ?_, fun u r => ?_, fun irq hirq => ?_, ?_⟩
  · by_cases he : e = l.wire.line
    · subst he
      rw [← hw] at hm
      rw [(mid_own hseat'.tied (update_self ..) hin' o).mp hm]
      exact hown (h.lines _ _ ((mid_own hseat.tied hl hin _).mpr rfl))
    · obtain ⟨hlev, hup⟩ := hother e he
      have hold := h.lines e o (mid_update hl hw (fun hf => absurd hf he) hm)
      exact hold.congr hlev (hioapic _ fun hf => he (ioapic_inj hf)) hup
  · by_cases hu : u = t
    · subst hu
      rw [update_self, hroute, hw]
      exact hrouted r
    · rw [update_of_ne hu, hroute]
      exact h.routed u r
  · rw [hioapic irq (hirq _).symm]
    exact h.beyond irq hirq
  · rw [hroute]
    exact hatpic

section Call

variable (hmid : l.stage.mid = true) (hlow : l.stage ≠ .lowering) (hcounts : l.counts = l.op.after)
include hmid hlow hcounts

theorem balanced_refused (hseat' : Seated pins s (update gh t { l with stage := .refused })) :
    Balanced s (update gh t { l with stage := .refused }) up := by
  obtain ⟨hlev, hup, hio⟩ := h.midLine hl hmid
  rw [if_neg hlow] at hio
  exact h.own hl hseat (Loc.inTable_of_mid hmid) hseat' rfl rfl
    (h.level_same hl rfl hcounts.symm) (fun _ _ => ⟨rfl, rfl⟩) (fun _ _ => rfl)
    (fun _ => ⟨hlev, hup, hio⟩) nofun h.atpic

theorem balanced_told {r : Option Nat} (hr : l.op ≠ .pulse → s.route l.wire.line = r)
    (hs : s' = { s with
      atpic := tell s.atpic l.op r
      ioapic := Shared.count s.ioapic l.wire.line.ioapic l.op })
    (hseat' : Seated pins s' (update gh t { l with stage := .settled true })) :
    Balanced s' (update gh t { l with stage := .settled true })
      (update up l.wire.line l.op.after) := by
  subst hs
  obtain ⟨hlev, hup, hio⟩ := h.midLine hl hmid
  rw [if_neg hlow] at hio
  refine h.own hl hseat (Loc.inTable_of_mid hmid) hseat' rfl rfl
    (h.level_same hl rfl hcounts.symm) (fun e he => ⟨rfl, update_of_ne he _ _⟩)
    (fun _ => count_other _) (fun _ => ⟨?_, ?_⟩) nofun
    (share_tell h.atpic hup hr)
  · rw [update_self]
    rw [hlev]
    cases l.op.after <;> rfl
  · rw [update_self]
    exact count_told _ (by rw [hio, hup])

theorem balanced_raised (hop : l.op = .pulse) (hs : s' = { s with
      ioapic := Shared.count s.ioapic l.wire.line.ioapic .assert })
    (hseat' : Seated pins s' (update gh t { l with stage := .lowering })) :
    Balanced s' (update gh t { l with stage := .lowering }) up := by
  subst hs
  obtain ⟨hlev, hup, hio⟩ := h.midLine hl hmid
  rw [if_neg hlow] at hio
  refine h.own hl hseat (Loc.inTable_of_mid hmid) hseat' rfl rfl
    (h.level_same hl rfl hcounts.symm) (fun _ _ => ⟨rfl, rfl⟩)
    (fun _ => count_other .assert) (fun _ => ⟨hlev, hup, ?_⟩) nofun h.atpic
  exact count_told .assert (by rw [hio, hup, hop]; rfl)

theorem balanced_call {r : Option Nat} {went : Bool} (hr : l.op ≠ .pulse → s.route l.wire.line = r)
    (hex : some (s.ioctl c { s with
      atpic := tell s.atpic l.op r
      ioapic := Shared.count s.ioapic l.wire.line.ioapic l.op }) = some (went, s'))
    (hseat' : Seated pins s' (update gh t (l.told went))) :
    ∃ up', Balanced s' (update gh t (l.told went)) up' := by
  obtain ⟨-, rfl, rfl⟩ | ⟨-, rfl, hs⟩ := ioctl_cases hex
  · exact ⟨up, balanced_refused h hl hseat hmid hlow hcounts hseat'⟩
  · exact ⟨_, balanced_told h hl hseat hmid hlow hcounts hr hs hseat'⟩

end Call

theorem balanced_lowered (hlow : l.stage = .lowering) (hop : l.op = .pulse) (hs : s' = { s with
      ioapic := Shared.count s.ioapic l.wire.line.ioapic .deassert })
    (hseat' : Seated pins s' (update gh t { l with stage := .settled true })) :
    Balanced s' (update gh t { l with stage := .settled true }) up := by
  subst hs
  have hmid : l.stage.mid = true := by rw [hlow]; rfl
  obtain ⟨hlev, hup, hio⟩ := h.midLine hl hmid
  rw [if_pos hlow] at hio
  refine h.own hl hseat (Loc.inTable_of_mid hmid) hseat' rfl rfl
    (h.level_same hl rfl ?_) (fun _ _ => ⟨rfl, rfl⟩)
    (fun _ => count_other .deassert) (fun _ => ⟨?_, ?_⟩) nofun h.atpic
  · simp only [Loc.counts, hlow, Loc.result, if_true]
  · rw [hup, hlev, hop]
    rfl
  · rw [hup, hop]
    exact count_told .deassert hio

theorem balanced_routed (hdue : l.stage = .due)
    (hseat' : Seated pins s (update gh t { l with stage := .routed (s.route l.wire.line) })) :
    Balanced s (update gh t
      { l with stage := .routed (s.route l.wire.line) }) up := by
  have hmid : l.stage.mid = true := by rw [hdue]; rfl
  obtain ⟨hlev, hup, hio⟩ := h.midLine hl hmid
  rw [if_neg (by rw [hdue]; nofun)] at hio
  refine h.own hl hseat (Loc.inTable_of_mid hmid) hseat' rfl rfl
    (h.level_same hl rfl ?_) (fun _ _ => ⟨rfl, rfl⟩) (fun _ _ => rfl)
    (fun _ => ⟨hlev, hup, hio⟩) (fun r hr _ => ?_) h.atpic
  · simp only [Loc.counts, hdue]
  · exact Stage.routed.inj hr

/-- The level changes. The kernel is to be told where that moves the line. -/
theorem balanced_processed (hlocked : l.stage = .locked) {tell : Bool}
    {level : Nat} (hp : processOp (s.level l.wire.line) l.op = (tell, level))
    (hs : s' = { s with level := update s.level l.wire.line level })
    (hl' : l' = { l with stage := if tell then .due else .settled true })
    (hseat' : Seated pins s' (update gh t l')) :
    Balanced s' (update gh t l') up := by
  subst hs
  have hin : l.inTable = true := by simp only [Loc.inTable, hlocked]
  have hcounts : l.counts = l.op.before := by simp only [Loc.counts, hlocked]
  have hafter : l'.counts = l.op.after ∧ l'.inTable = true := by
    subst hl'
    cases tell <;> exact ⟨rfl, rfl⟩
  obtain ⟨hn, htell⟩ := processOp_spec (fun hb => h.level_pos hl (hcounts.trans hb)) hp
  have hold := h.lines _ _ ((mid_own hseat.tied hl hin _).mpr rfl)
  rw [Loc.midOf, hlocked] at hold
  obtain ⟨hup, hio⟩ := hold
  refine h.own hl hseat hin hseat' hafter.2 rfl
    (h.level_own hl (by rw [hl']) (by rw [hcounts, hafter.1, hn]))
    (fun e he => ⟨update_of_ne he _ _, rfl⟩) (fun _ _ => rfl) (fun _ => ?_) ?_
    h.atpic
  · subst hl'
    cases tell with
    | true =>
      exact ⟨(update_self ..).trans htell.1, hup.trans htell.2, hio⟩
    | false =>
      refine ⟨?_, hio⟩
      simp only [update_self]
      exact hup.trans htell.symm
  · subst hl'
    cases tell <;> nofun

theorem balanced_undone (hrefused : l.stage = .refused)
    (hs : s' = { s with level := update s.level l.wire.line (undoOp (s.level l.wire.line) l.op) })
    (hseat' : Seated pins s' (update gh t { l with stage := .settled false })) :
    Balanced s' (update gh t { l with stage := .settled false })
      up := by
  subst hs
  have hmid : l.stage.mid = true := by rw [hrefused]; rfl
  obtain ⟨hlev, hup, hio⟩ := h.midLine hl hmid
  rw [if_neg (by rw [hrefused]; nofun)] at hio
  have hundo : undoOp (s.level l.wire.line) l.op = l.op.before.toNat := by
    rw [hlev, undoOp_after]
  refine h.own hl hseat (Loc.inTable_of_mid hmid) hseat' rfl rfl (h.level_own hl rfl ?_)
    (fun e he => ⟨update_of_ne he _ _, rfl⟩) (fun _ _ => rfl)
    (fun _ => ⟨?_, hio⟩) nofun h.atpic
  · rw [hundo, hlev]
    simp only [Loc.counts, hrefused, Loc.result]
    exact Nat.add_comm _ _
  · simp only [update_self, hundo, hup]
    cases l.op.before <;> rfl

theorem balanced_step {a : Ans l.todo}
    (hok : ∀ irq, l.todo = .ioapicDeassert .pulse irq → c.refused = false)
    (hex : Shared.exec t c l.todo s = some (a, s'))
    (hseat' : Seated pins s' (update gh t (l.next l.todo a))) :
    ∃ up', Balanced s' (update gh t (l.next l.todo a)) up' := by
  have hfair : l.Fair := hl ▸ hseat.fair t
  by_cases hquiet : l.counting = false
  · have hcan := can_exec hseat hl hex
    obtain ⟨hs, hmid'⟩ := counts_exec hquiet hex
    simp only [Loc.counting, Bool.or_eq_false_iff, beq_eq_false_iff_ne] at hquiet
    refine ⟨up, h.quiet hl (Loc.next_wire _ _)
      (Loc.counts_next hfair hcan hquiet.1 ?_) hquiet.2 hmid' hs⟩
    intro hr
    rw [hr] at hquiet
    cases hquiet.2
  obtain ⟨w, op, flag, stage⟩ := l
  cases stage with
  | locked =>
    obtain ⟨rfl, rfl⟩ := Prod.mk.inj (Option.some.inj hex)
    exact ⟨up, balanced_processed h hl hseat rfl rfl rfl rfl hseat'⟩
  | due =>
    cases w with
    | legacy irq =>
      exact balanced_call (r := some irq.val) h hl hseat rfl (by simp) rfl (fun _ => rfl) hex hseat'
    | pci slot pin =>
      cases hex
      have hr := route_pci s slot pin
      simp only [Loc.next] at hseat' ⊢
      rw [← hr] at hseat' ⊢
      exact ⟨up, balanced_routed h hl hseat rfl hseat'⟩
  | routed r =>
    have hr : op ≠ .pulse → s.route w.line = r := by
      have hrouted := h.routed t r
      rw [hl] at hrouted
      exact hrouted rfl
    cases r with
    | some atpic =>
      exact balanced_call h hl hseat rfl (by simp) rfl hr hex hseat'
    | none =>
      cases op with
      | assert =>
        have hnext : Loc.next ⟨w, .assert, flag, .routed none⟩ _ a =
            Loc.told ⟨w, .assert, flag, .routed none⟩ a := by
          cases a <;> rfl
        rw [hnext] at hseat' ⊢
        exact balanced_call h hl hseat rfl (by simp) rfl hr hex hseat'
      | deassert =>
        exact balanced_call h hl hseat rfl (by simp) rfl hr hex hseat'
      | pulse =>
        obtain ⟨-, rfl, rfl⟩ | ⟨-, rfl, hs⟩ := ioctl_cases hex
        · exact ⟨up, balanced_refused h hl hseat rfl (by simp) rfl hseat'⟩
        · exact ⟨up, balanced_raised h hl hseat rfl (by simp) rfl rfl hs hseat'⟩
  | lowering =>
    obtain ⟨hc, -⟩ | ⟨-, rfl, hs⟩ := ioctl_cases hex
    · cases (hok _ rfl).symm.trans hc
    · exact ⟨up, balanced_lowered h hl hseat rfl hfair.2 hs hseat'⟩
  | refused =>
    cases hex
    exact ⟨up, balanced_undone h hl hseat rfl rfl hseat'⟩
  | _ => exact absurd rfl hquiet

end Pin

-- ==== the guest

variable {offset len : Nat} {val : BitVec 32}

/-- A write of a routing register leaves every route, or every line it moves
is idle. -/
theorem route_cfgWrite (hok : (pirReg offset len).all (fun i =>
      atpicIrq (val.setWidth 8) == atpicIrq (s.pir i) || s.idle i) = true)
    (e : Line) :
    (s.cfgWrite offset len val).route e = s.route e ∨ s.level e = 0 ∧ s.ioapic e.ioapic = 0 := by
  cases e with
  | isa irq =>
    unfold Shared.cfgWrite
    split <;> exact .inl rfl
  | gsi n =>
    unfold Shared.cfgWrite
    cases hreg : pirReg offset len with
    | none => exact .inl rfl
    | some i =>
      rw [hreg, Option.all_some, Bool.or_eq_true, beq_iff_eq] at hok
      simp only [Shared.route]
      by_cases hi : (⟨n % 4, Nat.mod_lt _ (by decide)⟩ : Fin 4) = i
      · rcases hok with hsame | hidle
        · left
          rw [hi, update_self]
          exact hsame
        · right
          have hn := List.all_eq_true.mp hidle n (List.mem_finRange n)
          simpa [← hi, Line.ioapic] using hn
      · left
        rw [update_of_ne hi]

/-- A line that is idle is down. -/
theorem Balanced.down (h : Balanced s gh up)
    (hlev : s.level e = 0) (hio : s.ioapic e.ioapic = 0) : up e = false := by
  by_cases hmid : Mid gh e none
  · rw [(h.lines e none hmid).1, hlev]
    rfl
  · simp only [Mid, not_forall, Bool.not_eq_false] at hmid
    obtain ⟨t, rfl, hmid⟩ := hmid
    obtain ⟨-, -, hline⟩ := h.midLine rfl hmid
    rw [hio] at hline
    split at hline
    · cases hline
    · cases hup : up (gh t).wire.line with
      | false => rfl
      | true =>
        rw [hup] at hline
        cases hline

theorem balanced_cfgWrite (h : Balanced s gh up) (hok : (pirReg offset len).all (fun i =>
      atpicIrq (val.setWidth 8) == atpicIrq (s.pir i) || s.idle i) = true) :
    Balanced (s.cfgWrite offset len val) gh up := by
  have hroute := route_cfgWrite hok
  have hs : (s.cfgWrite offset len val).level = s.level ∧
      (s.cfgWrite offset len val).ioapic = s.ioapic ∧
      (s.cfgWrite offset len val).atpic = s.atpic := by
    unfold Shared.cfgWrite
    split <;> exact ⟨rfl, rfl, rfl⟩
  obtain ⟨hlevel, hioapic, hatpic⟩ := hs
  refine ⟨?_, fun e o hm => ?_, fun t r hr hop => ?_, ?_, fun irq => ?_⟩
  · rw [hlevel]
    exact h.level
  · exact (h.lines e o hm).congr (congrFun hlevel e) (congrFun hioapic _) rfl
  · -- in the middle of an assert the level is up, and of a deassert the line
    rcases hroute (gh t).wire.line with hsame | ⟨hlev, hio⟩
    · rw [hsame]
      exact h.routed t r hr hop
    · obtain ⟨hlev', hup, -⟩ := h.midLine (t := t) rfl (by rw [hr]; rfl)
      rw [h.down hlev hio] at hup
      rw [hlev] at hlev'
      cases hopt : (gh t).op with
      | assert => rw [hopt] at hlev'; cases hlev'
      | deassert => rw [hopt] at hup; cases hup
      | pulse => exact absurd hopt hop
  · rw [hioapic]
    exact h.beyond
  · rw [hatpic, h.atpic]
    refine (share_reroute (fun e he => ?_) irq).symm
    rcases hroute e with hsame | ⟨hlev, hio⟩
    · exact hsame
    · exact nomatch he.symm.trans (h.down hlev hio)

end Steps

-- ==== the runs

variable {pins : Nat → Wire} {s : Shared} {gh : Nat → Loc}

theorem Seated.cfgWrite (h : Seated pins s gh) (offset len : Nat) (val : BitVec 32) :
    Seated pins (s.cfgWrite offset len val) gh := by
  unfold Shared.cfgWrite
  split
  · exact h
  · exact ⟨h.wire, h.fair, h.flag, h.busy, h.tied⟩

/-- The steps of a run that keeps its routes. -/
def Kept (a : Act Choice Move) (p : Pool Op Ans Shared) : Prop :=
  keepsRoutes a p = true

instance (a : Act Choice Move) (p : Pool Op Ans Shared) : Decidable (Kept a p) :=
  inferInstanceAs (Decidable (_ = _))

def linesOutline (pins : Nat → Wire) : Outline machine Kept Loc where
  toDiscipline := Loc.rules
  post _ := False
  inv s gh := Seated pins s gh ∧ ∃ up, Balanced s gh up
  op_step := by
    rintro p t c o k a sh gh hthr hok ⟨hseat, up, hbal⟩ hallow hex
    obtain rfl : o = (gh t).todo := hallow
    have hok : keepsRoutes (.run t c) p = true := hok
    simp only [keepsRoutes, hthr, Proc.head?] at hok
    have hpulse : ∀ irq, (gh t).todo = .ioapicDeassert .pulse irq → c.refused = false := by
      intro irq ho
      rw [ho] at hok
      simpa using hok
    have hseat' := seated_step hseat rfl hex
    exact ⟨can_exec hseat rfl hex, hseat', balanced_step hbal rfl hseat hpulse hex hseat'⟩
  env_step := by
    rintro p p' ⟨offset, len, val⟩ gh hok ⟨hseat, up, hbal⟩ hthr henv
    cases henv
    exact ⟨gh, ⟨hseat.cfgWrite offset len val, up, balanced_cfgWrite hbal hok⟩, hthr⟩

theorem holds_start (pins : Nat → Wire) : (linesOutline pins).Holds (start pins)
      fun t => ⟨pins t, .assert, false, .rest⟩ := by
  refine ⟨⟨⟨fun _ => rfl, fun _ => trivial, fun _ => rfl, fun _ => rfl, ?_⟩,
    fun _ => false, ?_⟩, fun t => keeps_thread (pins t) .assert false⟩
  · exact fun _ _ => iff_of_false nofun nofun
  · refine ⟨fun e => .zero ?_, fun e o hm => ?_, nofun, fun _ _ => rfl, ?_⟩
    · exact fun _ hc => nomatch hc.2
    · cases o with
      | none => exact ⟨rfl, rfl⟩
      | some l =>
        obtain ⟨t, rfl, -, hmid⟩ := hm
        cases hmid
    · intro irq
      simp [share, start]

/-- A line whose pins are all at rest is up while one of them is asserted. -/
theorem Balanced.at_rest {up : Line → Bool} (h : Balanced s gh up) (hseat : Seated pins s gh)
    {e : Line} (hrest : ∀ t, (pins t).line = e → s.busy t = false) :
    s.ioapic e.ioapic = (up e).toNat ∧
      (up e = true ↔ ∃ t, s.asserted t = true ∧ (pins t).line = e) := by
  have hstage : ∀ t, (pins t).line = e → (gh t).stage = .rest := by
    intro t ht
    have hbusy := (hseat.busy t).symm.trans (hrest t ht)
    simpa [Loc.busy] using hbusy
  have hmid : Mid gh e none := by
    intro t ht
    rw [hseat.wire] at ht
    rw [hstage t ht]
    rfl
  have hcounts : ∀ t, Counts e (gh t) ↔ s.asserted t = true ∧ (pins t).line = e := by
    intro t
    rw [Counts, hseat.wire, hseat.flag, and_comm, and_congr_left_iff]
    intro ht
    rw [Loc.counts, hstage t ht]
  obtain ⟨hup, hio⟩ := h.lines e none hmid
  refine ⟨hio, ?_⟩
  simp only [hup, decide_eq_true_eq, ← hcounts]
  constructor
  · exact (h.level e).exists_of_pos
  · rintro ⟨t, ht⟩
    by_contra hpos
    have hzero := h.level e
    rw [Nat.eq_zero_of_not_pos hpos] at hzero
    exact hzero.not_of_zero t ht

theorem toNat_pos {b : Bool} : 0 < b.toNat ↔ b = true := by
  cases b <;> simp

-- ==== lines left high

/-- Two INTx pins that share a line, and an ISA pin for everybody else. -/
def twoSlots : Nat → Wire
  | 0 => .pci 3 0
  | 1 => .pci 11 0
  | _ => .legacy 5

/-- `n` steps of a call on pin `t`. -/
def calls (t n : Nat) (c : Choice) : List (Act Choice Move) :=
  List.replicate n (.run t c)

/-- The guest routes the line of both slots to an ATPIC line. -/
def routeTo (irq : BitVec 32) : Act Choice Move := .env (.cfgWrite 0x63 1 irq)

/-- Only the two slots route to a line that is not IRQ 5. -/
theorem twoSlots_cases {k : KernelLine} {P : Nat → Prop} (hk : ¬ s.routesTo (.legacy 5) k)
    (h0 : s.routesTo (.pci 3 0) k → P 0) (h1 : s.routesTo (.pci 11 0) k → P 1) :
    ∀ t, s.routesTo (twoSlots t) k → P t
  | 0, ht => h0 ht
  | 1, ht => h1 ht
  | _ + 2, ht => absurd ht hk

/-- A slot is asserted, and the guest then gives its line another route. The
old ATPIC line stays high with no pin routed to it, and the new one low. -/
theorem rerouted_stays_high :
    ∃ p, machine.Reach System.anyStep (start twoSlots) p ∧
      p.sh.busy 0 = false ∧ p.sh.high (.atpic 10) ∧
      (∀ t, ¬ p.sh.routesTo (twoSlots t) (.atpic 10)) ∧
      p.sh.asserted 0 = true ∧ p.sh.routesTo (twoSlots 0) (.atpic 11) ∧
      ¬ p.sh.high (.atpic 11) := by
  obtain ⟨p, hreach, hbusy, hold, hflag, hroute, hnew⟩ :
      ∃ p, machine.Reach System.anyStep (start twoSlots) p ∧
        p.sh.busy 0 = false ∧ p.sh.atpic 10 = 1 ∧ p.sh.asserted 0 = true ∧
        p.sh.route (.gsi 7) = some 11 ∧ p.sh.atpic 11 = 0 :=
    System.exists_reach (routeTo 10 :: calls 0 11 ⟨.assert, false⟩ ++
      [routeTo 11]) (by decide)
  refine ⟨p, hreach, hbusy, by simp [Shared.high, hold], ?_, hflag, hroute,
    by simp [Shared.high, hnew]⟩
  have hmoved : ¬ p.sh.route (.gsi 7) = some 10 := by simp [hroute]
  exact twoSlots_cases (P := fun _ => False)
    (by simp [Shared.routesTo, Shared.route, Wire.line]) hmoved hmoved

/-- The route is disabled, and the kernel refuses the second half of a pulse.
The IOAPIC line stays high with no pin asserted. -/
theorem refused_pulse_stays_high : ∃ p, machine.Reach System.anyStep (start twoSlots) p ∧
      p.sh.high (.ioapic 23) ∧
      ∀ t, p.sh.routesTo (twoSlots t) (.ioapic 23) →
        p.sh.busy t = false ∧ p.sh.asserted t = false := by
  obtain ⟨p, hreach, hhigh, h0, h1⟩ : ∃ p, machine.Reach System.anyStep (start twoSlots) p ∧
        p.sh.ioapic 23 = 1 ∧
        (p.sh.busy 0 = false ∧ p.sh.asserted 0 = false) ∧
        p.sh.busy 1 = false ∧ p.sh.asserted 1 = false :=
    System.exists_reach (calls 0 7 ⟨.pulse, false⟩ ++ calls 0 4 ⟨.pulse, true⟩) (by decide)
  exact ⟨p, hreach, by simp [Shared.high, hhigh],
    twoSlots_cases (P := fun t => p.sh.busy t = false ∧ p.sh.asserted t = false)
      (by simp [Shared.routesTo, Line.ioapic, Wire.line])
      (fun _ => h0) fun _ => h1⟩

-- ==== the lines

/-- While no call on a pin that routes to it is in progress, a kernel line is
high exactly when one of these pins is asserted. -/
theorem lines_follow_pins {pins : Nat → Wire} {p : Pool Op Ans Shared}
    (h : machine.Reach Kept (start pins) p) (k : KernelLine)
    (hrest : ∀ t, p.sh.routesTo (pins t) k → p.sh.busy t = false) :
    p.sh.high k ↔ ∃ t, p.sh.asserted t = true ∧ p.sh.routesTo (pins t) k := by
  obtain ⟨gh, hholds⟩ := (linesOutline pins).sound (holds_start pins) h
  obtain ⟨hseat, up, hbal⟩ :
      Seated pins p.sh gh ∧ ∃ up, Balanced p.sh gh up := hholds.1
  cases k with
  | ioapic irq =>
    by_cases hline : ∃ e : Line, e.ioapic = irq
    · obtain ⟨e, rfl⟩ := hline
      obtain ⟨hio, hup⟩ := hbal.at_rest hseat (e := e) fun t ht =>
        hrest t (congrArg Line.ioapic ht)
      rw [Shared.high, hio, toNat_pos, hup]
      refine exists_congr fun t => and_congr_right fun _ => ?_
      exact ⟨congrArg Line.ioapic, ioapic_inj⟩
    · have hzero := hbal.beyond irq fun e he => hline ⟨e, he⟩
      rw [Shared.high, hzero]
      exact iff_of_false (Nat.lt_irrefl 0) fun ⟨t, _, ht⟩ => hline ⟨_, ht⟩
  | atpic irq =>
    have hat : ∀ e, p.sh.route e = some irq →
        (up e = true ↔ ∃ t, p.sh.asserted t = true ∧ (pins t).line = e) :=
      fun e he => (hbal.at_rest hseat fun t ht =>
        hrest t ((congrArg p.sh.route ht).trans he)).2
    rw [Shared.high, hbal.atpic, share, Finset.card_pos]
    constructor
    · rintro ⟨e, he⟩
      obtain ⟨-, hup, hroute⟩ := Finset.mem_filter.mp he
      obtain ⟨t, hflag, rfl⟩ := (hat e hroute).mp hup
      exact ⟨t, hflag, hroute⟩
    · rintro ⟨t, hflag, hroute⟩
      refine ⟨(pins t).line, Finset.mem_filter.mpr ⟨Finset.mem_univ _, ?_, hroute⟩⟩
      exact (hat _ hroute).mpr ⟨t, hflag, rfl⟩

/-- Both slots are asserted and one is deasserted: the other keeps the line
high. -/
theorem lines_follow_pins_shared :
    ∃ p, machine.Reach Kept (start twoSlots) p ∧
      (∀ t, p.sh.routesTo (twoSlots t) (.atpic 10) → p.sh.busy t = false) ∧
      p.sh.asserted 0 = false ∧ p.sh.asserted 1 = true ∧
      p.sh.high (.atpic 10) := by
  obtain ⟨p, hreach, hb0, hb1, hf0, hf1, hroute⟩ :
      ∃ p, machine.Reach Kept (start twoSlots) p ∧
        p.sh.busy 0 = false ∧ p.sh.busy 1 = false ∧
        p.sh.asserted 0 = false ∧ p.sh.asserted 1 = true ∧
        p.sh.route (.gsi 7) = some 10 :=
    System.exists_reach (routeTo 10 :: calls 0 11 ⟨.assert, false⟩ ++
      calls 1 9 ⟨.assert, false⟩ ++ calls 0 9 ⟨.deassert, false⟩)
      (by decide)
  have hrest := twoSlots_cases (s := p.sh) (k := .atpic 10)
    (P := fun t => p.sh.busy t = false)
    (by simp [Shared.routesTo, Shared.route, Wire.line])
    (fun _ => hb0) fun _ => hb1
  exact ⟨p, hreach, hrest, hf0, hf1,
    (lines_follow_pins hreach (.atpic 10) hrest).mpr ⟨1, hf1, hroute⟩⟩

end Rshyve.Intr
