/-
# Each decoded address belongs to the BAR that names it

The records of the devices are what is on the buses (`Own`), and what is on
a bus for a BAR is where the BAR's register is, enabled (`Match`). An update
breaks `Match` for the BARs it has not come to yet and never breaks `Own`,
so the two are proved apart: `Own` for every release and every register,
`Match` for the BAR just refreshed.

`decode_run` is the result over every sequence of config writes. The part
that has a condition is whether an enabled BAR decodes at all: it does
exactly when its range was free at its device's last BAR or command write.
Nothing registers it again when the overlap goes away
(`dark_after_overlap`).
-/
import Rshyve.Pci.Decode

namespace Rshyve.Pci

open Function

-- ==== registering and releasing

namespace ASpace

variable {α : Type}

/-- A range that a register accepts. -/
structure Free (s : ASpace α) (start len : Nat) : Prop where
  nonempty : 0 < len
  inside : s.start ≤ start ∧ start + len ≤ s.stop + 1
  apart : ∀ e ∈ s.map, e.stop ≤ start ∨ start + len ≤ e.start

theorem register_eq_ok {s s' : ASpace α} (hok : RangeMap.Ok s.map)
    (hstop : s.stop < 2 ^ 64) {start len : Nat} {item : α} :
    s.register start len item = .ok s' ↔ s.Free start len ∧
        s' = { s with map := RangeMap.insert s.map ⟨start, len, item⟩ } := by
  unfold register safeEnd
  constructor
  · intro h
    split at h
    next => cases h
    next stop hstop =>
    simp only [Option.ite_none_left_eq_some, Option.ite_none_right_eq_some,
      Option.some.injEq] at hstop
    obtain ⟨hlen, hbig, rfl⟩ := hstop
    split at h
    next => cases h
    next hout =>
    split at h
    next => cases h
    next ht =>
    cases h
    refine ⟨⟨by omega, by omega, fun e he => ?_⟩, rfl⟩
    by_contra hmeet
    exact ht ((RangeMap.touches_iff hok (by omega)).2 ⟨e, he, by omega, by omega⟩)
  · rintro ⟨hfree, rfl⟩
    have hpos := hfree.nonempty
    have hin := hfree.inside
    have ht : ¬ RangeMap.touches s.map start (start + len - 1) = true := by
      rw [RangeMap.touches_iff hok (by omega)]
      rintro ⟨e, he, h₁, h₂⟩
      have := hfree.apart e he
      omega
    rw [if_neg (by omega), if_pos (by omega)]
    simp only []
    rw [if_neg (by omega), if_neg ht]

variable {e : RangeMap.Entry α}

theorem unregister_eq {s : ASpace α} (he : e ∈ s.map) : s.unregister e.start
      = .ok { s with map := RangeMap.erase s.map e.start } := by
  have hany : (s.map.any fun a => a.start == e.start) = true :=
    List.any_eq_true.2 ⟨e, he, beq_self_eq_true e.start⟩
  unfold unregister
  rw [if_pos hany]

theorem regionAt_eq_ok {s : ASpace α} (hok : RangeMap.Ok s.map) {p : Nat} : s.regionAt p = .ok e ↔
      (s.start ≤ p ∧ p ≤ s.stop) ∧ e ∈ s.map ∧ e.covers p := by
  unfold regionAt
  constructor
  · intro h
    split at h
    next => cases h
    next hout =>
    split at h
    next hr =>
      cases h
      exact ⟨by omega, (RangeMap.lookup_eq_some hok).1 hr⟩
    next => cases h
  · intro h
    rw [if_neg (by omega), (RangeMap.lookup_eq_some hok).2 h.2]

end ASpace

variable {a n : Nat}

namespace Machine

variable {ι : Type}

-- ==== frame lemmas

theorem setSpace_self (m : Machine ι) (k : BusKind) (s : ASpace (Owner ι)) :
    (m.setSpace k s).spaces k = s := by
  exact update_self k s m.spaces

theorem setSpace_of_ne (m : Machine ι) {k k' : BusKind} (h : k' ≠ k)
    (s : ASpace (Owner ι)) : (m.setSpace k s).spaces k' = m.spaces k' := by
  exact update_of_ne h s m.spaces

/-- What holds of every bus, and of the one put in a bus's place. -/
theorem forall_setSpace {P : BusKind → ASpace (Owner ι) → Prop}
    {m : Machine ι} {k : BusKind} {s : ASpace (Owner ι)}
    (h : ∀ k, P k (m.spaces k)) (hs : P k s) (l : BusKind) :
    P l ((m.setSpace k s).spaces l) := by
  by_cases hl : l = k
  · rw [hl, setSpace_self]
    exact hs
  · rw [setSpace_of_ne _ hl]
    exact h l

theorem setSpace_devs (m : Machine ι) (k : BusKind) (s : ASpace (Owner ι)) :
    (m.setSpace k s).devs = m.devs := rfl

/-- The headers and families are the same, so the enabled BARs are. -/
def SameHeaders (m m' : Machine ι) : Prop :=
  ∀ i, (m'.devs i).pci = (m.devs i).pci ∧ (m'.devs i).family = (m.devs i).family

theorem SameHeaders.enabledBar {m m' : Machine ι} (h : SameHeaders m m') (i : ι) (bar : BarN) :
    (m'.devs i).enabledBar bar = (m.devs i).enabledBar bar := by
  unfold Device.enabledBar
  rw [(h i).1, (h i).2]

theorem SameHeaders.busOf {m m' : Machine ι} (h : SameHeaders m m')
    (i : ι) (bar : BarN) : m'.busOf i bar = m.busOf i bar := by
  unfold Machine.busOf
  rw [(h i).2]

theorem SameHeaders.refl (m : Machine ι) : SameHeaders m m :=
  fun _ => ⟨rfl, rfl⟩

theorem SameHeaders.trans {m m' m'' : Machine ι} (h : SameHeaders m m')
    (h' : SameHeaders m' m'') : SameHeaders m m'' :=
  fun i => ⟨(h' i).1.trans (h i).1, (h' i).2.trans (h i).2⟩

variable [DecidableEq ι]

section Frame

variable (m : Machine ι) (i j : ι) (bar c : BarN) (r : Option Nat)

theorem setRegistered_pci : ((m.setRegistered i bar r).devs j).pci = (m.devs j).pci := by
  unfold setRegistered setDev
  by_cases h : j = i
  · subst h
    simp only [update_self]
  · simp only [update_of_ne h]

theorem setRegistered_family : ((m.setRegistered i bar r).devs j).family = (m.devs j).family := by
  unfold setRegistered setDev
  by_cases h : j = i
  · subst h
    simp only [update_self]
  · simp only [update_of_ne h]

theorem setRegistered_self : ((m.setRegistered i bar r).devs i).registered bar = r := by
  unfold setRegistered setDev
  simp only [update_self]

theorem setRegistered_of_ne (h : (j, c) ≠ (i, bar)) :
    ((m.setRegistered i bar r).devs j).registered c = (m.devs j).registered c := by
  unfold setRegistered setDev
  by_cases hj : j = i
  · subst hj
    have hc : c ≠ bar := fun hc => h (by rw [hc])
    simp only [update_self, update_of_ne hc]
  · simp only [update_of_ne hj]

end Frame

-- ==== the records and the buses

/-- What the devices have recorded is what the buses hold for them. -/
structure Own (m : Machine ι) : Prop where
  bounds : ∀ k, (m.spaces k).start = 0 ∧ (m.spaces k).stop = k.last
  ok : ∀ k, RangeMap.Ok (m.spaces k).map
  inside : ∀ k, ∀ e ∈ (m.spaces k).map, ∀ i bar, e.item = .dev i bar → e.stop ≤ k.last + 1
  owned : ∀ k, ∀ e ∈ (m.spaces k).map, ∀ i bar, e.item = .dev i bar →
    m.busOf i bar = k ∧ (m.devs i).registered bar = some e.start
  recorded : ∀ i bar a, (m.devs i).registered bar = some a →
    ∃ e ∈ (m.spaces (m.busOf i bar)).map, e.item = .dev i bar ∧ e.start = a

/-- What a bus holds for a BAR is where its register is, enabled. -/
def Match (m : Machine ι) (i : ι) (bar : BarN) : Prop :=
  ∀ k, ∀ e ∈ (m.spaces k).map, e.item = .dev i bar →
    (m.devs i).enabledBar bar = some (e.start, e.len)

theorem sameHeaders_setRegistered (m : Machine ι) (i : ι) (bar : BarN)
    (r : Option Nat) (k : BusKind) (s : ASpace (Owner ι)) :
    SameHeaders m ((m.setRegistered i bar r).setSpace k s) :=
  fun j => ⟨setRegistered_pci m i j bar r, setRegistered_family m i j bar r⟩

theorem last_lt (k : BusKind) : k.last < 2 ^ 64 := by
  cases k <;> decide

-- ==== a release

variable {m : Machine ι} {i : ι} {bar : BarN}

theorem release_none (hr : (m.devs i).registered bar = none) : m.release i bar = m := by
  unfold release
  rw [hr]

section

variable (h : Own m)
include h

/-- A release of a recorded base always finds it on the bus. -/
theorem release_eq {a : Nat} (hr : (m.devs i).registered bar = some a) :
    m.release i bar = (m.setRegistered i bar none).setSpace (m.busOf i bar)
      { m.spaces (m.busOf i bar) with
        map := RangeMap.erase (m.spaces (m.busOf i bar)).map a } := by
  obtain ⟨e, he, -, rfl⟩ := h.recorded i bar a hr
  unfold release
  rw [hr]
  simp only [ASpace.unregister_eq he]

theorem sameHeaders_release (i : ι) (bar : BarN) : SameHeaders m (m.release i bar) := by
  cases hr : (m.devs i).registered bar with
  | none =>
    rw [release_none hr]
    exact .refl m
  | some a =>
    rw [release_eq h hr]
    exact sameHeaders_setRegistered m i bar none _ _

theorem release_self (i : ι) (bar : BarN) : ((m.release i bar).devs i).registered bar = none := by
  cases hr : (m.devs i).registered bar with
  | none =>
    rw [release_none hr]
    exact hr
  | some a =>
    rw [release_eq h hr, setSpace_devs]
    exact setRegistered_self m i bar none

theorem release_of_ne {i j : ι} {bar c : BarN} (hne : (j, c) ≠ (i, bar)) :
    ((m.release i bar).devs j).registered c = (m.devs j).registered c := by
  cases hr : (m.devs i).registered bar with
  | none => rw [release_none hr]
  | some a =>
    rw [release_eq h hr, setSpace_devs]
    exact setRegistered_of_ne m i j bar c none hne

variable {e : RangeMap.Entry (Owner ι)}

/-- A release takes the BAR's region off its bus, and no other. -/
theorem mem_release (i : ι) (bar : BarN) (k : BusKind) : e ∈ ((m.release i bar).spaces k).map ↔
      e ∈ (m.spaces k).map ∧ e.item ≠ .dev i bar := by
  cases hr : (m.devs i).registered bar with
  | none =>
    rw [release_none hr]
    refine ⟨fun he => ⟨he, fun hitem => ?_⟩, fun he => he.1⟩
    rw [(h.owned k e he i bar hitem).2] at hr
    cases hr
  | some a =>
    rw [release_eq h hr]
    by_cases hk : k = m.busOf i bar
    · subst hk
      rw [setSpace_self, RangeMap.mem_erase]
      obtain ⟨e₀, he₀, hitem₀, rfl⟩ := h.recorded i bar a hr
      constructor
      · intro ⟨he, hstart⟩
        refine ⟨he, fun hitem => hstart ?_⟩
        have hrec := (h.owned _ e he i bar hitem).2
        rw [hr] at hrec
        exact (Option.some.inj hrec).symm
      · intro ⟨he, hitem⟩
        refine ⟨he, fun hstart => hitem ?_⟩
        rw [(h.ok _).eq_of_start he he₀ hstart]
        exact hitem₀
    · rw [setSpace_of_ne _ hk]
      refine ⟨fun he => ⟨he, fun hitem => hk ?_⟩, fun he => he.1⟩
      exact (h.owned k e he i bar hitem).1.symm

theorem Own.release (i : ι) (bar : BarN) : Own (m.release i bar) := by
  have hsame := sameHeaders_release h i bar
  cases hr : (m.devs i).registered bar with
  | none =>
    rw [release_none hr]
    exact h
  | some a =>
  refine ⟨?_, ?_, ?_, ?_, ?_⟩
  · rw [release_eq h hr]
    exact forall_setSpace (P := fun k s => s.start = 0 ∧ s.stop = k.last) h.bounds (h.bounds _)
  · rw [release_eq h hr]
    exact forall_setSpace (P := fun _ s => RangeMap.Ok s.map) h.ok ((h.ok _).erase a)
  · intro k e he j c hitem
    exact h.inside k e ((mem_release h i bar k).1 he).1 j c hitem
  · intro k e he j c hitem
    obtain ⟨he, hnot⟩ := (mem_release h i bar k).1 he
    have hne : (j, c) ≠ (i, bar) := by
      intro heq
      cases heq
      exact hnot hitem
    rw [hsame.busOf, release_of_ne h hne]
    exact h.owned k e he j c hitem
  · intro j c a hrec
    have hne : (j, c) ≠ (i, bar) := by
      intro heq
      cases heq
      rw [release_self h] at hrec
      cases hrec
    rw [release_of_ne h hne] at hrec
    obtain ⟨e, he, hitem, hstart⟩ := h.recorded j c a hrec
    rw [hsame.busOf]
    refine ⟨e, (mem_release h i bar _).2 ⟨he, ?_⟩, hitem, hstart⟩
    intro hdev
    rw [hitem] at hdev
    cases hdev
    exact hne rfl

-- ==== a register

/-- The BAR is on the bus: it is enabled, not at zero, and its range is
free. -/
def Enrolls (m : Machine ι) (i : ι) (bar : BarN) (a n : Nat) : Prop :=
  (m.devs i).enabledBar bar = some (a, n) ∧ a ≠ 0 ∧ (m.spaces (m.busOf i bar)).Free a n

theorem enroll_eq (he : Enrolls m i bar a n) :
    m.enroll i bar = (m.setRegistered i bar (some a)).setSpace
      (m.busOf i bar) { m.spaces (m.busOf i bar) with
        map := RangeMap.insert (m.spaces (m.busOf i bar)).map ⟨a, n, .dev i bar⟩ } := by
  obtain ⟨hen, hne, hfree⟩ := he
  have hstop : (m.spaces (m.busOf i bar)).stop < 2 ^ 64 := by
    rw [(h.bounds _).2]
    exact last_lt _
  unfold enroll
  rw [hen]
  simp only []
  rw [if_neg hne, (ASpace.register_eq_ok (h.ok _) hstop).2 ⟨hfree, rfl⟩]

theorem enroll_eq_self (hno : ∀ a n, ¬ Enrolls m i bar a n) : m.enroll i bar = m := by
  have hstop : (m.spaces (m.busOf i bar)).stop < 2 ^ 64 := by
    rw [(h.bounds _).2]
    exact last_lt _
  unfold enroll
  split
  · rfl
  · rename_i a n hen
    split
    · rfl
    · rename_i hne
      split
      · rfl
      · rename_i s hs
        obtain ⟨hfree, -⟩ := (ASpace.register_eq_ok (h.ok _) hstop).1 hs
        exact absurd ⟨hen, hne, hfree⟩ (hno a n)

theorem enroll_cases (i : ι) (bar : BarN) : (∃ a n, Enrolls m i bar a n) ∨
      (∀ a n, ¬ Enrolls m i bar a n) ∧ m.enroll i bar = m := by
  by_cases he : ∃ a n, Enrolls m i bar a n
  · exact .inl he
  · have hno : ∀ a n, ¬ Enrolls m i bar a n := fun a n hn => he ⟨a, n, hn⟩
    exact .inr ⟨hno, enroll_eq_self h hno⟩

theorem sameHeaders_enroll (i : ι) (bar : BarN) : SameHeaders m (m.enroll i bar) := by
  obtain ⟨a, n, he⟩ | ⟨-, heq⟩ := enroll_cases h i bar
  · rw [enroll_eq h he]
    exact sameHeaders_setRegistered m i bar (some a) _ _
  · rw [heq]
    exact .refl m

theorem enroll_of_ne {i j : ι} {bar c : BarN} (hne : (j, c) ≠ (i, bar)) :
    ((m.enroll i bar).devs j).registered c = (m.devs j).registered c := by
  obtain ⟨a, n, he⟩ | ⟨-, heq⟩ := enroll_cases h i bar
  · rw [enroll_eq h he, setSpace_devs]
    exact setRegistered_of_ne m i j bar c (some a) hne
  · rw [heq]

/-- A register puts at most the BAR's own region on its bus. -/
theorem mem_enroll (i : ι) (bar : BarN) (k : BusKind) :
    e ∈ ((m.enroll i bar).spaces k).map ↔ e ∈ (m.spaces k).map ∨
      (k = m.busOf i bar ∧ ∃ a n, Enrolls m i bar a n ∧ e = ⟨a, n, .dev i bar⟩) := by
  obtain ⟨a, n, he⟩ | ⟨hno, heq⟩ := enroll_cases h i bar
  · rw [enroll_eq h he]
    by_cases hk : k = m.busOf i bar
    · subst hk
      rw [setSpace_self, RangeMap.mem_insert]
      constructor
      · rintro (heq | hin)
        · exact .inr ⟨rfl, a, n, he, heq⟩
        · exact .inl hin
      · rintro (hin | ⟨-, a', n', he', heq⟩)
        · exact .inr hin
        · -- a BAR is enabled at one place
          have hsame := he.1.symm.trans he'.1
          cases hsame
          exact .inl heq
    · rw [setSpace_of_ne _ hk]
      exact ⟨.inl, fun hin => hin.resolve_right fun hnew => hk hnew.1⟩
  · rw [heq]
    refine ⟨.inl, fun hin => hin.resolve_right ?_⟩
    intro ⟨_, a, n, hn, _⟩
    exact hno a n hn

theorem Own.enroll (hnone : (m.devs i).registered bar = none) : Own (m.enroll i bar) := by
  obtain ⟨a, n, he⟩ | ⟨-, heq⟩ := enroll_cases h i bar
  · have hfree := he.2.2
    have hsame := sameHeaders_enroll h i bar
    have hself : ((m.enroll i bar).devs i).registered bar = some a := by
      rw [enroll_eq h he, setSpace_devs]
      exact setRegistered_self m i bar (some a)
    refine ⟨?_, ?_, ?_, ?_, ?_⟩
    · rw [enroll_eq h he]
      exact forall_setSpace (P := fun k s => s.start = 0 ∧ s.stop = k.last) h.bounds (h.bounds _)
    · rw [enroll_eq h he]
      exact forall_setSpace (P := fun _ s => RangeMap.Ok s.map) h.ok
        ((h.ok _).insert hfree.nonempty hfree.apart)
    · intro k e hin j c hitem
      rcases (mem_enroll h i bar k).1 hin with hin | ⟨rfl, a', n', he', rfl⟩
      · exact h.inside k e hin j c hitem
      · have hlast := (h.bounds (m.busOf i bar)).2
        have hend := he'.2.2.inside.2
        rw [hlast] at hend
        exact hend
    · intro k e hin j c hitem
      rcases (mem_enroll h i bar k).1 hin with hin | ⟨rfl, a', n', he', rfl⟩
      · obtain ⟨hbus, hrec⟩ := h.owned k e hin j c hitem
        have hne : (j, c) ≠ (i, bar) := by
          intro heq
          cases heq
          rw [hnone] at hrec
          cases hrec
        rw [hsame.busOf, enroll_of_ne h hne]
        exact ⟨hbus, hrec⟩
      · cases hitem
        have hone := he.1.symm.trans he'.1
        cases hone
        rw [hsame.busOf]
        exact ⟨rfl, hself⟩
    · intro j c a' hrec
      rw [hsame.busOf]
      by_cases hjc : (j, c) = (i, bar)
      · cases hjc
        rw [hself] at hrec
        cases hrec
        exact ⟨⟨a, n, .dev i bar⟩, (mem_enroll h i bar _).2 (.inr ⟨rfl, a, n, he, rfl⟩), rfl, rfl⟩
      · rw [enroll_of_ne h hjc] at hrec
        obtain ⟨e, hin, hitem, hstart⟩ := h.recorded j c a' hrec
        exact ⟨e, (mem_enroll h i bar _).2 (.inl hin), hitem, hstart⟩
  · rw [heq]
    exact h

end

-- ==== an update

/-- What refreshing the BARs `l` of device `i` does: those BARs are on the
buses where their registers are or not at all, and no other region moves. -/
structure Refreshed (i : ι) (l : List BarN) (m m' : Machine ι) : Prop where
  own : Own m'
  headers : SameHeaders m m'
  record : ∀ j c, (j ≠ i ∨ c ∉ l) → (m'.devs j).registered c = (m.devs j).registered c
  regions : ∀ j c, (j ≠ i ∨ c ∉ l) → ∀ k e, e.item = .dev j c →
    (e ∈ (m'.spaces k).map ↔ e ∈ (m.spaces k).map)
  matched : ∀ c ∈ l, Match m' i c

omit [DecidableEq ι] in
theorem Refreshed.nil (h : Own m) (i : ι) : Refreshed i [] m m :=
  ⟨h, .refl m, fun _ _ _ => rfl, fun _ _ _ _ _ _ => Iff.rfl, fun _ hc => nomatch hc⟩

theorem refreshed_one (h : Own m) (i : ι) (bar : BarN) : Refreshed i [bar] m (refresh i m bar) := by
  have hrel := h.release i bar
  have hne : ∀ j c, (j ≠ i ∨ c ∉ [bar]) → (j, c) ≠ (i, bar) := by
    intro j c hor heq
    cases heq
    rcases hor with hj | hc
    · exact hj rfl
    · exact hc (List.mem_singleton.2 rfl)
  have hsame := (sameHeaders_release h i bar).trans (sameHeaders_enroll hrel i bar)
  refine ⟨hrel.enroll (release_self h i bar), hsame, ?_, ?_, ?_⟩
  · intro j c hor
    unfold refresh
    rw [enroll_of_ne hrel (hne j c hor), release_of_ne h (hne j c hor)]
  · intro j c hor k e hitem
    unfold refresh
    rw [mem_enroll hrel, mem_release h]
    have hnot : e.item ≠ .dev i bar := by
      intro heq
      rw [hitem] at heq
      cases heq
      exact hne i bar hor rfl
    constructor
    · rintro (hin | ⟨-, a, n, -, rfl⟩)
      · exact hin.1
      · exact absurd rfl hnot
    · intro hin
      exact .inl ⟨hin, hnot⟩
  · intro c hc k e hin hitem
    rw [List.mem_singleton.1 hc] at hitem ⊢
    rcases (mem_enroll hrel i bar k).1 hin with hin | ⟨-, a, n, he, rfl⟩
    · exact absurd hitem ((mem_release h i bar k).1 hin).2
    · exact ((sameHeaders_enroll hrel i bar).enabledBar i bar).trans he.1

omit [DecidableEq ι] in
theorem Refreshed.append {i : ι} {l l' : List BarN} {m m' m'' : Machine ι}
    (h : Refreshed i l m m') (h' : Refreshed i l' m' m'') :
    Refreshed i (l ++ l') m m'' := by
  refine ⟨h'.own, h.headers.trans h'.headers, ?_, ?_, ?_⟩
  · intro j c hor
    rw [h'.record j c (hor.imp_right fun hc hin =>
        hc (List.mem_append.2 (.inr hin))),
      h.record j c (hor.imp_right fun hc hin =>
        hc (List.mem_append.2 (.inl hin)))]
  · intro j c hor k e hitem
    rw [h'.regions j c (hor.imp_right fun hc hin =>
        hc (List.mem_append.2 (.inr hin))) k e hitem,
      h.regions j c (hor.imp_right fun hc hin =>
        hc (List.mem_append.2 (.inl hin))) k e hitem]
  · intro c hc
    by_cases hin : c ∈ l'
    · exact h'.matched c hin
    · -- a BAR refreshed before and left alone since
      have hin' := (List.mem_append.1 hc).resolve_right hin
      intro k e he hitem
      rw [h'.headers.enabledBar]
      exact h.matched c hin' k e ((h'.regions i c (.inr hin) k e hitem).1 he) hitem

theorem refreshed_foldl (i : ι) (l : List BarN) :
    ∀ {m : Machine ι}, Own m → Refreshed i l m (l.foldl (refresh i) m) := by
  induction l with
  | nil =>
    intro m h
    exact .nil h i
  | cons bar l ih =>
    intro m h
    have hone := refreshed_one h i bar
    exact hone.append (ih hone.own)

/-- A BAR is visited once, after the ones before it. -/
theorem order_split : ∀ (f : Family) (bar : BarN), bar ∈ f.order →
    f.order = f.order.takeWhile (· ≠ bar) ++ bar :: (f.order.dropWhile (· ≠ bar)).tail ∧
      bar ∉ (f.order.dropWhile (· ≠ bar)).tail := by
  intro f
  cases f with
  | virtio msix => cases msix <;> decide
  | nvme => decide
  | xhci => decide
  | ahci => decide
  | fbuf => decide

/-- A refresh records a base exactly when it registers it. -/
theorem refresh_self (h : Own m) (hen : (m.devs i).enabledBar bar = some (a, n)) :
    ((refresh i m bar).devs i).registered bar = some a ↔ Enrolls (m.release i bar) i bar a n := by
  have hrel := h.release i bar
  have hen' : ((m.release i bar).devs i).enabledBar bar = some (a, n) := by
    rw [(sameHeaders_release h i bar).enabledBar]
    exact hen
  unfold refresh
  by_cases he : Enrolls (m.release i bar) i bar a n
  · rw [enroll_eq hrel he, setSpace_devs, setRegistered_self]
    exact ⟨fun _ => he, fun _ => rfl⟩
  · have hno : ∀ a' n', ¬ Enrolls (m.release i bar) i bar a' n' := by
      intro a' n' hn
      have hone := hen'.symm.trans hn.1
      cases hone
      exact he hn
    rw [enroll_eq_self hrel hno, release_self h]
    exact ⟨by simp, fun hx => absurd hx he⟩

-- ==== a config write

section Write

variable (m : Machine ι) (w : CfgWrite ι)

theorem written_registered (j : ι) : ((m.written w).devs j).registered = (m.devs j).registered ∧
      ((m.written w).devs j).family = (m.devs j).family := by
  unfold written setDev
  by_cases h : j = w.dev
  · subst h
    simp only [update_self, and_self]
  · simp only [update_of_ne h, and_self]

theorem written_of_ne {j : ι} (h : j ≠ w.dev) : (m.written w).devs j = m.devs j := by
  exact update_of_ne h _ _

theorem written_self : ((m.written w).devs w.dev).pci
    = (m.devs w.dev).pci.cfgWrite w.offset w.len w.val := by
  unfold written setDev
  simp only [update_self]

theorem written_busOf (j : ι) (bar : BarN) : (m.written w).busOf j bar = m.busOf j bar := by
  unfold busOf
  rw [(written_registered m w j).2]

/-- A write that moves nothing leaves every enabled BAR where it is. -/
theorem written_enabledBar (hm : moves w.offset = false) (j : ι) (bar : BarN) :
    ((m.written w).devs j).enabledBar bar = (m.devs j).enabledBar bar := by
  by_cases h : j = w.dev
  · subst h
    obtain ⟨hcmd, hbars⟩ := (m.devs w.dev).pci.cfgWrite_of_not_moves hm w.len w.val
    unfold Device.enabledBar
    rw [(written_registered m w w.dev).2, written_self, hcmd, hbars]
  · rw [written_of_ne m w h]

end Write

theorem Own.written (h : Own m) (w : CfgWrite ι) : Own (m.written w) := by
  refine ⟨h.bounds, h.ok, h.inside, ?_, ?_⟩
  · intro k e he j c hitem
    rw [written_busOf, (written_registered m w j).1]
    exact h.owned k e he j c hitem
  · intro j c a hrec
    rw [(written_registered m w j).1] at hrec
    rw [written_busOf]
    exact h.recorded j c a hrec

/-- The buses and the headers agree. -/
structure Settled (m : Machine ι) : Prop where
  own : Own m
  matched : ∀ i bar, Match m i bar

variable {w : CfgWrite ι}

/-- What a moving write leaves of the device's own records and of the rest. -/
theorem refreshed_cfgWrite (h : Own m) (hm : moves w.offset = true) :
    Refreshed w.dev (m.devs w.dev).family.order (m.written w) (m.cfgWrite w) := by
  unfold cfgWrite updateRegistration
  rw [if_pos hm, (written_registered m w w.dev).2]
  exact refreshed_foldl w.dev _ (h.written w)

theorem Settled.cfgWrite (h : Settled m) (w : CfgWrite ι) : Settled (m.cfgWrite w) := by
  by_cases hm : moves w.offset = true
  · have hr := refreshed_cfgWrite h.own hm
    refine ⟨hr.own, fun i bar => ?_⟩
    by_cases hib : i = w.dev ∧ bar ∈ (m.devs w.dev).family.order
    · obtain ⟨rfl, hbar⟩ := hib
      exact hr.matched bar hbar
    · intro k e he hitem
      have hor : i ≠ w.dev ∨ bar ∉ (m.devs w.dev).family.order := by
        by_cases hi : i = w.dev
        · exact .inr fun hbar => hib ⟨hi, hbar⟩
        · exact .inl hi
      have hold : e ∈ (m.spaces k).map :=
        (hr.regions i bar hor k e hitem).1 he
      have hen := h.matched i bar k e hold hitem
      rw [hr.headers.enabledBar]
      rcases hor with hi | hbar
      · rw [written_of_ne m w hi]
        exact hen
      · -- a BAR the device does not register has no region
        by_cases hi : i = w.dev
        · subst hi
          unfold Device.enabledBar at hen
          rw [if_neg hbar] at hen
          cases hen
        · rw [written_of_ne m w hi]
          exact hen
  · have hm' : moves w.offset = false := Bool.eq_false_iff.2 hm
    unfold Machine.cfgWrite
    rw [if_neg hm]
    refine ⟨h.own.written w, fun i bar k e he hitem => ?_⟩
    rw [written_enabledBar m w hm']
    exact h.matched i bar k e he hitem

/-- After a moving write a BAR of the device is recorded exactly when its
range was free as it was registered. -/
theorem recorded_iff (h : Own m) (hm : moves w.offset = true)
    (hen : ((m.cfgWrite w).devs w.dev).enabledBar bar = some (a, n)) :
    ((m.cfgWrite w).devs w.dev).registered bar = some a ↔ a ≠ 0 ∧ (m.busAt w bar).Free a n := by
  have hbar : bar ∈ (m.devs w.dev).family.order := by
    have hfam := (refreshed_cfgWrite h hm).headers w.dev
    unfold Device.enabledBar at hen
    rw [hfam.2, (written_registered m w w.dev).2] at hen
    by_contra hno
    rw [if_neg hno] at hen
    cases hen
  obtain ⟨hsplit, hlater⟩ := order_split _ bar hbar
  have hpre := refreshed_foldl w.dev ((m.devs w.dev).family.order.takeWhile (· ≠ bar)) (h.written w)
  have hone := refreshed_one hpre.own w.dev bar
  have hpost := refreshed_foldl w.dev
    ((m.devs w.dev).family.order.dropWhile (· ≠ bar)).tail hone.own
  -- the update is the BARs before, the BAR, and the BARs after
  have hupd : m.cfgWrite w = ((m.devs w.dev).family.order.dropWhile
      (· ≠ bar)).tail.foldl (refresh w.dev) (refresh w.dev
        (((m.devs w.dev).family.order.takeWhile (· ≠ bar)).foldl
          (refresh w.dev) (m.written w)) bar) := by
    unfold Machine.cfgWrite updateRegistration
    rw [if_pos hm, (written_registered m w w.dev).2]
    conv_lhs => rw [hsplit]
    rw [List.foldl_append, List.foldl_cons]
  have hen' : ((((m.devs w.dev).family.order.takeWhile (· ≠ bar)).foldl
      (refresh w.dev) (m.written w)).devs w.dev).enabledBar bar
      = some (a, n) := by
    rw [hupd, hpost.headers.enabledBar, hone.headers.enabledBar] at hen
    exact hen
  rw [hupd, hpost.record w.dev bar (.inr hlater), refresh_self hpre.own hen']
  unfold Enrolls
  rw [(sameHeaders_release hpre.own w.dev bar).enabledBar, hen']
  constructor
  · intro hx
    exact hx.2
  · intro hx
    exact ⟨rfl, hx⟩

-- ==== the accesses

section Accesses

omit [DecidableEq ι]

variable {k : BusKind} {p : Nat}

theorem reaches_eq_dev (h : Own m) : m.reaches k p = some (.dev i bar) ↔
      ∃ e ∈ (m.spaces k).map, e.item = .dev i bar ∧ e.covers p := by
  unfold reaches
  constructor
  · intro hr
    split at hr
    · rename_i e he
      obtain ⟨-, hin, hcov⟩ := (ASpace.regionAt_eq_ok (h.ok k)).1 he
      exact ⟨e, hin, Option.some.inj hr, hcov⟩
    · cases hr
  · intro ⟨e, hin, hitem, hcov⟩
    have hinside := h.inside k e hin i bar hitem
    have hb := h.bounds k
    have hat : (m.spaces k).regionAt p = .ok e :=
      (ASpace.regionAt_eq_ok (h.ok k)).2 ⟨⟨by omega, by have := hcov.2; omega⟩, hin, hcov⟩
    rw [hat]
    exact congrArg some hitem

/-- A device is only reached through the BAR that is there. -/
theorem Settled.not_stale (h : Settled m) (hr : m.reaches k p = some (.dev i bar)) :
    ∃ a n, (m.devs i).enabledBar bar = some (a, n) ∧ m.busOf i bar = k ∧ a ≤ p ∧ p < a + n := by
  obtain ⟨e, hin, hitem, hcov⟩ := (reaches_eq_dev h.own).1 hr
  exact ⟨e.start, e.len, h.matched i bar k e hin hitem,
    (h.own.owned k e hin i bar hitem).1, hcov.1, hcov.2⟩

/-- A recorded BAR gets every access to it. -/
theorem Settled.reaches (h : Settled m) (hen : (m.devs i).enabledBar bar = some (a, n))
    (hrec : (m.devs i).registered bar = some a) (hlo : a ≤ p)
    (hhi : p < a + n) : m.reaches (m.busOf i bar) p = some (.dev i bar) := by
  obtain ⟨e, hin, hitem, hstart⟩ := h.own.recorded i bar a hrec
  have hone := (h.matched i bar _ e hin hitem).symm.trans hen
  cases hone
  exact (reaches_eq_dev h.own).2 ⟨e, hin, hitem, hlo, hhi⟩

theorem Settled.dark (h : Settled m) (hen : (m.devs i).enabledBar bar = some (a, n))
    (hrec : (m.devs i).registered bar ≠ some a) (k : BusKind) (p : Nat) :
    m.reaches k p ≠ some (.dev i bar) := by
  intro hr
  obtain ⟨e, hin, hitem, -⟩ := (reaches_eq_dev h.own).1 hr
  have hone := (h.matched i bar k e hin hitem).symm.trans hen
  cases hone
  exact hrec (h.own.owned k e hin i bar hitem).2

end Accesses

-- ==== runs

omit [DecidableEq ι] in
theorem settled_initial (h : Initial m) : Settled m := by
  have hno : ∀ k, ∀ e ∈ (m.spaces k).map, ∀ i bar, e.item ≠ .dev i bar := by
    intro k e he i bar hitem
    obtain ⟨n, hn⟩ := h.fixed k e he
    rw [hn] at hitem
    cases hitem
  refine ⟨⟨h.bounds, h.ok, ?_, ?_, ?_⟩, ?_⟩
  · intro k e he i bar hitem
    exact absurd hitem (hno k e he i bar)
  · intro k e he i bar hitem
    exact absurd hitem (hno k e he i bar)
  · intro i bar a hrec
    rw [h.registered] at hrec
    cases hrec
  · intro i bar k e he hitem
    exact absurd hitem (hno k e he i bar)

theorem settled_run (h : Initial m) (ws : List (CfgWrite ι)) : Settled (m.run ws) := by
  induction ws using List.reverseRecOn with
  | nil => exact settled_initial h
  | append_singleton ws w ih =>
    unfold run
    rw [List.foldl_append]
    exact ih.cfgWrite w

/-- The last write of `ws` that could move device `i`, and what its BAR
found on the bus then. -/
structure LastMove (ws : List (CfgWrite ι)) (i : ι)
    (pre : List (CfgWrite ι)) (w : CfgWrite ι) : Prop where
  dev : w.dev = i
  moves : moves w.offset = true
  split : ∃ post, ws = pre ++ w :: post ∧ ∀ w' ∈ post, w'.dev = i → Pci.moves w'.offset = false

omit [DecidableEq ι] in
theorem LastMove.append {ws : List (CfgWrite ι)} {pre : List (CfgWrite ι)}
    (h : LastMove ws i pre w) {w' : CfgWrite ι}
    (hw : w'.dev = i → Pci.moves w'.offset = false) :
    LastMove (ws ++ [w']) i pre w := by
  obtain ⟨post, hws, hpost⟩ := h.split
  refine ⟨h.dev, h.moves, post ++ [w'], ?_, ?_⟩
  · rw [hws, List.append_assoc, List.cons_append]
  · intro x hx
    rcases List.mem_append.1 hx with hx | hx
    · exact hpost x hx
    · rw [List.mem_singleton.1 hx]
      exact hw

/-- Every enabled BAR was last decided by a write to its device, and is
recorded exactly when its range was free then. -/
theorem recorded_run {m₀ : Machine ι} (h₀ : Initial m₀)
    (ws : List (CfgWrite ι)) (i : ι) (bar : BarN) (a n : Nat)
    (hen : ((m₀.run ws).devs i).enabledBar bar = some (a, n)) :
    ∃ pre w, LastMove ws i pre w ∧ (((m₀.run ws).devs i).registered bar = some a ↔
        a ≠ 0 ∧ ((m₀.run pre).busAt w bar).Free a n) := by
  induction ws using List.reverseRecOn with
  | nil =>
    -- no device decodes at the start
    have hcmd : (m₀.devs i).pci.command = intxDis := h₀.command i
    have hen : (m₀.devs i).enabledBar bar = some (a, n) := hen
    unfold Device.enabledBar at hen
    split at hen
    · rw [hcmd] at hen
      cases hb : (m₀.devs i).family.busOf bar with
      | pio =>
        rw [hb] at hen
        cases hen
      | mmio =>
        rw [hb] at hen
        cases hen
    · cases hen
  | append_singleton ws w ih =>
    have hsettled := settled_run h₀ ws
    have hrun : m₀.run (ws ++ [w]) = (m₀.run ws).cfgWrite w := by
      unfold run
      rw [List.foldl_append]
      rfl
    rw [hrun] at hen ⊢
    by_cases hm : moves w.offset = true
    · by_cases hi : w.dev = i
      · subst hi
        exact ⟨ws, w, ⟨rfl, hm, [], rfl, fun _ hx => nomatch hx⟩, recorded_iff hsettled.own hm hen⟩
      · -- another device's write
        have hr := refreshed_cfgWrite hsettled.own hm
        have hne : i ≠ w.dev := fun h => hi h.symm
        rw [hr.headers.enabledBar, written_of_ne _ w hne] at hen
        rw [hr.record i bar (.inl hne), written_of_ne _ w hne]
        obtain ⟨pre, w₀, hlast, hiff⟩ := ih hen
        exact ⟨pre, w₀, hlast.append fun h => absurd h hi, hiff⟩
    · have hm' : moves w.offset = false := Bool.eq_false_iff.2 hm
      unfold Machine.cfgWrite at hen ⊢
      rw [if_neg hm] at hen ⊢
      rw [written_enabledBar _ w hm'] at hen
      rw [(written_registered _ w i).1]
      obtain ⟨pre, w₀, hlast, hiff⟩ := ih hen
      exact ⟨pre, w₀, hlast.append fun _ => hm', hiff⟩

/-- For every sequence of config writes. An enabled BAR was last decided by
a write to its device's BARs or command register. If it is not at zero and
its range was free on the bus as that write registered it, every access to it
reaches its device; otherwise none does. And an access that reaches a device
lies in an enabled BAR of it. -/
theorem decode_run {m₀ : Machine ι} (h₀ : Initial m₀)
    (ws : List (CfgWrite ι)) :
    (∀ i bar a n, ((m₀.run ws).devs i).enabledBar bar = some (a, n) →
      ∃ pre w, LastMove ws i pre w ∧
        (a ≠ 0 ∧ ((m₀.run pre).busAt w bar).Free a n →
          ∀ p, a ≤ p → p < a + n →
            (m₀.run ws).reaches ((m₀.run ws).busOf i bar) p
              = some (.dev i bar)) ∧
        (¬ (a ≠ 0 ∧ ((m₀.run pre).busAt w bar).Free a n) →
          ∀ k p, (m₀.run ws).reaches k p ≠ some (.dev i bar))) ∧
    (∀ k p i bar, (m₀.run ws).reaches k p = some (.dev i bar) →
      ∃ a n, ((m₀.run ws).devs i).enabledBar bar = some (a, n) ∧
        (m₀.run ws).busOf i bar = k ∧ a ≤ p ∧ p < a + n) := by
  have hsettled := settled_run h₀ ws
  constructor
  · intro i bar a n hen
    obtain ⟨pre, w, hlast, hiff⟩ := recorded_run h₀ ws i bar a n hen
    refine ⟨pre, w, hlast, ?_, ?_⟩
    · intro hfree p hlo hhi
      exact hsettled.reaches hen (hiff.2 hfree) hlo hhi
    · intro hno
      exact hsettled.dark hen fun hrec => hno (hiff.1 hrec)
  · intro k p i bar hr
    exact hsettled.not_stale hr

-- ==== two controllers

/-- A USB controller out of reset. -/
def xhciAtReset : Device :=
  ⟨.xhci, { DeviceState.new with bars := Bars.new.define 0 (.mmio 0x2000) }, fun _ => none⟩

/-- Two of them on a machine with a port region of its own. -/
def twoXhci : Machine Bool where
  spaces
    | .pio => ⟨0, 0xffff, [⟨0xcf8, 8, .fixed 0⟩]⟩
    | .mmio => ⟨0, 0x100000000000 - 1, []⟩
  devs := fun _ => xhciAtReset

theorem initial_twoXhci : Initial twoXhci where
  bounds k := by cases k <;> exact ⟨rfl, rfl⟩
  ok k := by
    cases k with
    | pio =>
      refine ⟨List.pairwise_singleton _ _, fun e he => ?_⟩
      rw [List.mem_singleton.1 he]
      decide
    | mmio => exact ⟨List.Pairwise.nil, fun _ he => nomatch he⟩
  fixed k e he := by
    cases k with
    | pio => exact ⟨0, by rw [List.mem_singleton.1 he]⟩
    | mmio => cases he
  command _ := rfl
  registered _ _ := rfl

/-- Place a controller's BAR0 and enable it. -/
def place (i : Bool) (addr : BitVec 32) : List (CfgWrite Bool) :=
  [⟨i, 0x10, 4, addr⟩, ⟨i, 0x04, 2, 2⟩]

/-- Two controllers at different places, both reached. -/
theorem decode_run_twoXhci :
    ∃ ws, (∃ pre w, LastMove ws true pre w ∧
      ((twoXhci.run pre).busAt w 0).Free 0x20000000 0x2000) ∧
      (twoXhci.run ws).reaches .mmio 0x20000004 = some (.dev true 0) := by
  have hen : ((twoXhci.run (place false 0x10000000 ++
      place true 0x20000000)).devs true).enabledBar 0
        = some (0x20000000, 0x2000) := by decide
  have hgot : (twoXhci.run (place false 0x10000000 ++
      place true 0x20000000)).reaches .mmio 0x20000004
        = some (.dev true 0) := by decide
  obtain ⟨pre, w, hlast, hreach, hdark⟩ := (decode_run initial_twoXhci
    (place false 0x10000000 ++ place true 0x20000000)).1 true 0 _ _ hen
  refine ⟨_, ⟨pre, w, hlast, ?_⟩, ?_⟩
  · by_contra hfree
    exact hdark (fun h => hfree h.2) .mmio 0x20000004 hgot
  · exact hgot

/-- The first controller is at 0x10000000 when the second is placed there,
and moves away. Now the two enabled BARs are apart from each other and from
every fixed region, and an access to the second one's reaches nothing. -/
theorem dark_after_overlap :
    ∃ m, m = twoXhci.run (place false 0x10000000 ++ place true 0x10000000
        ++ [⟨false, 0x10, 4, 0x20000000⟩]) ∧
      (m.devs false).enabledBar 0 = some (0x20000000, 0x2000) ∧
      (m.devs true).enabledBar 0 = some (0x10000000, 0x2000) ∧
      (∀ i bar, bar ≠ 0 → (m.devs i).enabledBar bar = none) ∧
      (∀ e ∈ (m.spaces .mmio).map, ∀ n, e.item ≠ .fixed n) ∧
      m.reaches .mmio 0x10000000 = none := by
  refine ⟨_, rfl, ?_, ?_, ?_, ?_, ?_⟩
  · decide
  · decide
  · decide
  · intro e he n hitem
    have hall : (((twoXhci.run (place false 0x10000000 ++
        place true 0x10000000 ++ [⟨false, 0x10, 4, 0x20000000⟩])).spaces
          .mmio).map.all fun e => e.item == .dev false 0) = true := by
      decide
    have hone := List.all_eq_true.1 hall e he
    rw [hitem] at hone
    cases hone
  · decide

end Machine

end Rshyve.Pci
