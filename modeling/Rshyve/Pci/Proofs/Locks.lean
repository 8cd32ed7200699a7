/-
# No deadlock among config and BAR accesses, but for one

A moving write locks `self_ref` with the PCI state in hand, drops the PCI
state and takes it again with `self_ref` still in hand. Two of them
interleave into a cycle: one waits to retake the PCI state, the other holds
it and waits for `self_ref`. `moving_writes_deadlock` is that run.

It is the only cycle. `accesses_progress` shows that as long as no moving
write locks the PCI state while another one has yet to retake it, some vCPU
inside an access can always go on.

# The argument

`Inv` ties what the vCPUs hold to the machine. A vCPU inside an access can
go on, or waits for the owner of a lock ranked above all its own
(`Conc.exists_of_ranked`), or waits for the deliveries in flight, whose
vCPUs wait for locks only. A vCPU that waits for `self_ref` finds its owner
past the update, with nothing left but to release.
-/
import Rshyve.Pci.Proofs.LockRules

namespace Rshyve.Pci.Locks

open Conc Function

-- ==== the invariant

/-- What the machine says about one vCPU, and what it holds. -/
structure Per (s : Shared) (t : Nat) (x : Loc) : Prop where
  ins : t ∈ s.inside ↔ x.inside = true
  ret : s.retaking = some t ↔ x.phase = .retake
  /-- nobody holds the PCI state for a move while another is to retake it -/
  clear : x.phase = .moving → s.retaking = none
  ok : x.Ok

structure Inv (s : Shared) (gh : Nat → Loc) : Prop where
  own : Tied s.owner Loc.holds gh
  tok : Census (fun x : Loc => x.token = true) gh s.inFlight
  per : ∀ t, Per s t (gh t)

/-- What a move that only locks or unlocks keeps. -/
structure Kept (s : Shared) (x x' : Loc) : Prop where
  ins : x'.inside = x.inside
  tok : x'.token = x.token
  ret : x'.phase = .retake ↔ x.phase = .retake
  clear : x'.phase = .moving → s.retaking = none
  ok : x'.Ok

namespace Loc

variable {x : Loc} {l m : Lock}

@[simp] theorem holds_mid {p : Phase} :
    (mid p).holds m ↔ p.holds m = true :=
  ⟨fun h => h.resolve_left nofun, .inr⟩

theorem ok_mid (p : Phase) : (mid p).Ok :=
  ⟨nofun, List.nodup_nil, fun _ h => nomatch h⟩

theorem kept_mid {s : Shared} {p q : Phase} (hx : x = .mid p) (hret : p ≠ .retake ∧ q ≠ .retake)
    (hclear : q = .moving → s.retaking = none) : Kept s x (.mid q) := by
  subst hx
  exact ⟨rfl, rfl, iff_of_false hret.2 hret.1, hclear, ok_mid q⟩

theorem ok_rest : rest.Ok := ok_mid .plain

theorem ok_outside : outside.Ok :=
  ⟨fun _ => rfl, List.nodup_nil, fun _ h => nomatch h⟩

/-- A lock above all that is held is not held. -/
theorem Ok.push (h : x.Ok) (hin : x.inside = true) (hl : l ≠ .selfRef)
    (hlt : ∀ m, x.holds m → m.rank < l.rank) : (x.push l).Ok where
  out hout := absurd (hin.symm.trans hout) nofun
  nodup := List.nodup_cons.mpr ⟨fun hm => Nat.lt_irrefl _ (hlt l (.inl hm)), h.nodup⟩
  apart := by
    intro m hm
    rcases List.mem_cons.mp hm with rfl | hm
    · refine ⟨Bool.eq_false_iff.mpr fun hm => ?_, hl⟩
      exact Nat.lt_irrefl _ (hlt m (.inr hm))
    · exact h.apart m hm

theorem Ok.pop (h : x.Ok) (hin : x.inside = true) :
    ({ x with stack := x.stack.tail } : Loc).Ok where
  out hout := absurd (hin.symm.trans hout) nofun
  nodup := h.nodup.tail
  apart m hm := h.apart m (List.mem_of_mem_tail hm)

theorem holds_pop (h : x.Ok) (hl : x.stack.head? = some l) :
    ({ x with stack := x.stack.tail } : Loc).holds m ↔ m ≠ l ∧ x.holds m := by
  obtain ⟨phase, stack, token, inside⟩ := x
  cases stack with
  | nil => cases hl
  | cons k rest =>
    obtain rfl : k = l := Option.some.inj hl
    have hfresh : k ∉ rest := (List.nodup_cons.mp h.nodup).1
    have hphase : phase.holds k = false := (h.apart k List.mem_cons_self).1
    constructor
    · intro hm
      rcases hm with hm | hm
      · exact ⟨fun he => hfresh (he ▸ hm), .inl (List.mem_cons_of_mem k hm)⟩
      · refine ⟨fun he => ?_, .inr hm⟩
        have hm' : phase.holds m = true := hm
        rw [he, hphase] at hm'
        cases hm'
    · intro ⟨hne, hm⟩
      rcases hm with hm | hm
      · exact .inl ((List.mem_cons.mp hm).resolve_left hne)
      · exact .inr hm

end Loc

variable {r : Unit × Shared}

namespace Inv

variable {s s' : Shared} {gh : Nat → Loc} {t : Nat} {x : Loc}

theorem moved (hown : Tied s'.owner Loc.holds (update gh t x))
    (htok : Census (fun x : Loc => x.token = true) (update gh t x) s'.inFlight)
    (hper : Per s' t x) (hother : ∀ u, u ≠ t → Per s' u (gh u)) :
    Inv s' (update gh t x) :=
  ⟨hown, htok, (forall_update_iff gh (Per s')).mpr ⟨hper, hother⟩⟩

variable (h : Inv s gh)
include h

theorem owner {o : Owners Lock} (hown : Tied o Loc.holds (update gh t x)) (hk : Kept s (gh t) x) :
    Inv { s with owner := o } (update gh t x) := by
  have ht := h.per t
  refine moved hown (h.tok.same (by rw [hk.tok])) ⟨?_, ?_, hk.clear, hk.ok⟩ ?_
  · rw [hk.ins]
    exact ht.ins
  · rw [hk.ret]
    exact ht.ret
  · intro u _
    exact ⟨(h.per u).ins, (h.per u).ret, (h.per u).clear, (h.per u).ok⟩

variable {l : Lock}

theorem acquire (hex : s.acquire t l = some r)
    (hx : ∀ m, x.holds m ↔ m = l ∨ (gh t).holds m) (hk : Kept s (gh t) x) :
    Inv r.2 (update gh t x) := by
  obtain ⟨o, ho, rfl⟩ := Option.map_eq_some_iff.mp hex
  obtain ⟨hfree, rfl⟩ := Owners.acquire_eq_some.mp ho
  exact h.owner (h.own.acquire hfree hx) hk

theorem release (hex : s.release t l = some r)
    (hx : ∀ m, x.holds m ↔ m ≠ l ∧ (gh t).holds m) (hk : Kept s (gh t) x) :
    Inv r.2 (update gh t x) := by
  obtain ⟨o, ho, rfl⟩ := Option.map_eq_some_iff.mp hex
  obtain ⟨hmine, rfl⟩ := Owners.release_eq_some.mp ho
  exact h.owner (h.own.release hmine hx) hk

variable {p q : Phase}

theorem acquireMid (hx : gh t = .mid p) (hex : s.acquire t l = some r)
    (hq : ∀ m, q.holds m = true ↔ m = l ∨ p.holds m = true)
    (hret : p ≠ .retake ∧ q ≠ .retake)
    (hclear : q = .moving → s.retaking = none) :
    Inv r.2 (update gh t (.mid q)) := by
  refine h.acquire hex (fun m => ?_) (Loc.kept_mid hx hret hclear)
  rw [hx, Loc.holds_mid, Loc.holds_mid]
  exact hq m

theorem releaseMid (hx : gh t = .mid p) (hex : s.release t l = some r)
    (hq : ∀ m, q.holds m = true ↔ m ≠ l ∧ p.holds m = true)
    (hret : p ≠ .retake ∧ q ≠ .retake) (hclear : q ≠ .moving) :
    Inv r.2 (update gh t (.mid q)) := by
  refine h.release hex (fun m => ?_) (Loc.kept_mid hx hret fun he => absurd he hclear)
  rw [hx, Loc.holds_mid, Loc.holds_mid]
  exact hq m

/-- Two vCPUs do not hold one lock. -/
theorem holder_unique {u : Nat} (ht : (gh t).holds l) (hu : (gh u).holds l) : u = t := by
  have hone := (h.own l t).mpr ht
  rw [(h.own l u).mpr hu] at hone
  exact Option.some.inj hone

/-- `drop(pci)`: whoever else could object holds one of the two locks. -/
theorem drop (hx : gh t = .mid .both)
    (hex : ({ s with retaking := some t } : Shared).release t .pci = some r) :
    Inv r.2 (update gh t (.mid .retake)) := by
  obtain ⟨o, ho, rfl⟩ := Option.map_eq_some_iff.mp hex
  obtain ⟨hmine, rfl⟩ := Owners.release_eq_some.mp ho
  have ht := h.per t
  rw [hx] at ht
  refine moved ?_ (h.tok.same (by rw [hx]; exact Iff.rfl)) ?_ ?_
  · refine h.own.release hmine fun m => ?_
    rw [hx]
    cases m <;> simp [Phase.holds]
  · exact ⟨ht.ins, ⟨fun _ => rfl, fun _ => rfl⟩, fun h => (by cases h), Loc.ok_mid _⟩
  · intro u hu
    have hper := h.per u
    refine ⟨hper.ins, ?_, fun hmove => ?_, hper.ok⟩
    · refine ⟨fun he => absurd (Option.some.inj he).symm hu, fun he => ?_⟩
      refine absurd (h.holder_unique (l := .selfRef) ?_ (.inr ?_)) hu
      · rw [hx]
        exact .inr rfl
      · rw [he]
        rfl
    · refine absurd (h.holder_unique (l := .pci) ?_ (.inr ?_)) hu
      · rw [hx]
        exact .inr rfl
      · rw [hmove]
        rfl

theorem retake (hx : gh t = .mid .retake)
    (hex : ({ s with retaking := none } : Shared).acquire t .pci = some r) :
    Inv r.2 (update gh t (.mid .refresh)) := by
  obtain ⟨o, ho, rfl⟩ := Option.map_eq_some_iff.mp hex
  obtain ⟨hfree, rfl⟩ := Owners.acquire_eq_some.mp ho
  have ht := h.per t
  rw [hx] at ht
  have hret : s.retaking = some t := ht.ret.mpr rfl
  refine moved ?_ (h.tok.same (by rw [hx]; exact Iff.rfl)) ?_ ?_
  · refine h.own.acquire hfree fun m => ?_
    rw [hx]
    cases m <;> simp [Phase.holds]
  · exact ⟨ht.ins, ⟨fun h => (by cases h), fun h => (by cases h)⟩,
      fun h => (by cases h), Loc.ok_mid _⟩
  · intro u hu
    have hper := h.per u
    refine ⟨hper.ins, ⟨fun h => (by cases h), fun he => ?_⟩, fun _ => rfl, hper.ok⟩
    rw [hper.ret.mpr he] at hret
    exact absurd (Option.some.inj hret) hu

theorem count (hcalm : (gh t).Calm) (htok : (gh t).token = false) (go : Bool) :
    Inv (if go then { s with inFlight := s.inFlight + 1 } else s)
      (update gh t { gh t with token := go }) := by
  have ht := h.per t
  have hok : ({ gh t with token := go } : Loc).Ok :=
    ⟨fun hout => absurd (hcalm.1.symm.trans hout) nofun, ht.ok.nodup, ht.ok.apart⟩
  have hown : Tied s.owner Loc.holds (update gh t { gh t with token := go }) :=
    h.own.same fun _ => Iff.rfl
  cases go with
  | false =>
    refine moved hown (h.tok.same ?_) ⟨ht.ins, ht.ret, ht.clear, hok⟩ fun u _ => h.per u
    rw [htok]
  | true =>
    refine moved hown (h.tok.enter rfl ?_) ⟨ht.ins, ht.ret, ht.clear, hok⟩
      fun u _ => ⟨(h.per u).ins, (h.per u).ret, (h.per u).clear, (h.per u).ok⟩
    rw [htok]
    exact nofun

theorem uncount (hcalm : (gh t).Calm) (htok : (gh t).token = true) :
    Inv { s with inFlight := s.inFlight - 1 } (update gh t { gh t with token := false }) := by
  have ht := h.per t
  have hok : ({ gh t with token := false } : Loc).Ok :=
    ⟨fun hout => absurd (hcalm.1.symm.trans hout) nofun, ht.ok.nodup, ht.ok.apart⟩
  have hout : ¬ ({ gh t with token := false } : Loc).token = true := nofun
  refine moved (h.own.same fun _ => Iff.rfl) (h.tok.leave hout htok).2
    ⟨ht.ins, ht.ret, ht.clear, hok⟩ fun u _ => ?_
  exact ⟨(h.per u).ins, (h.per u).ret, (h.per u).clear, (h.per u).ok⟩

theorem enter (hx : gh t = .outside) : Inv { s with inside := t :: s.inside }
      (update gh t .rest) := by
  have ht := h.per t
  rw [hx] at ht
  refine moved (h.own.same fun _ => by rw [hx]; exact Iff.rfl)
    (h.tok.same (by rw [hx]; exact Iff.rfl)) ?_ fun u hu => ?_
  · exact ⟨⟨fun _ => rfl, fun _ => List.mem_cons_self⟩, ht.ret, ht.clear, Loc.ok_rest⟩
  · have hper := h.per u
    refine ⟨?_, hper.ret, hper.clear, hper.ok⟩
    rw [List.mem_cons, ← hper.ins]
    exact ⟨fun he => he.resolve_left hu, .inr⟩

theorem leave (hx : gh t = .rest) : Inv { s with inside := s.inside.filter (· != t) }
      (update gh t .outside) := by
  have ht := h.per t
  rw [hx] at ht
  refine moved (h.own.same fun _ => by rw [hx]; exact Iff.rfl)
    (h.tok.same (by rw [hx]; exact Iff.rfl)) ?_ fun u hu => ?_
  · refine ⟨⟨fun hm => ?_, nofun⟩, ht.ret, ht.clear, Loc.ok_outside⟩
    simp at hm
  · have hper := h.per u
    refine ⟨?_, hper.ret, hper.clear, hper.ok⟩
    rw [List.mem_filter, ← hper.ins]
    exact ⟨fun he => he.1, fun he => ⟨he, bne_iff_ne.mpr hu⟩⟩

end Inv

-- ==== the outline

theorem rest_holds {m : Lock} (h : Loc.rest.holds m) : False := by
  rcases h with h | h
  · cases h
  · cases h

theorem Inv.step {s : Pool Op Ans Shared} {t : Nat} {c : Choice} {o : Op}
    {k : Ans o → Prog Unit} {a : Ans o} {sh : Shared} {gh : Nat → Loc}
    (hthr : s.thr t = .op o k) (hok : keepsClear (.run t c) s)
    (h : Inv s.sh gh) (hallow : rules.allow (gh t) o)
    (hex : Shared.exec t c o s.sh = some (a, sh)) :
    Inv sh (update gh t (rules.next (gh t) o a)) := by
  have hper := h.per t
  cases o with
  | enter =>
    cases hex
    exact h.enter hallow
  | leave =>
    cases hex
    exact h.leave hallow
  | lock l =>
    obtain ⟨hcalm, hself, hlt⟩ := hallow
    exact h.acquire hex (fun _ => Loc.holds_push)
      ⟨rfl, rfl, Iff.rfl, hper.clear, hper.ok.push hcalm.1 hself hlt⟩
  | unlock l =>
    obtain ⟨hcalm, htop⟩ := hallow
    exact h.release hex (fun _ => Loc.holds_pop hper.ok htop)
      ⟨rfl, rfl, Iff.rfl, hper.clear, hper.ok.pop hcalm.1⟩
  | take =>
    have hclear : s.sh.retaking = none := hok (by rw [hthr]; rfl)
    exact h.acquireMid (p := .plain) hallow hex
      (fun m => by cases m <;> simp [Phase.holds]) (by decide)
      fun _ => hclear
  | takeSelf =>
    exact h.acquireMid (q := .both) hallow hex
      (fun m => by cases m <;> simp [Phase.holds]) (by decide) (fun h => by cases h)
  | drop =>
    exact h.drop hallow hex
  | retake =>
    exact h.retake hallow hex
  | release =>
    exact h.releaseMid (q := .finish) hallow hex
      (fun m => by cases m <;> simp [Phase.holds]) (by decide) (fun h => by cases h)
  | releaseSelf =>
    exact h.releaseMid (q := .plain) hallow hex
      (fun m => by cases m <;> simp [Phase.holds]) (by decide) (fun h => by cases h)
  | pick =>
    cases hex
    rw [show rules.next (gh t) .pick c.pick = gh t from rfl, update_eq_self]
    exact h
  | work =>
    cases hex
    rw [show rules.next (gh t) .work () = gh t from rfl, update_eq_self]
    exact h
  | count =>
    cases hex
    exact h.count hallow.1 hallow.2 c.pick
  | uncount =>
    cases hex
    exact h.uncount hallow.1 hallow.2
  | settle =>
    have hx : gh t = .rest := hallow
    simp only [Shared.exec] at hex
    split at hex
    · refine h.acquire hex (fun _ => Loc.holds_push) ⟨rfl, rfl, Iff.rfl, hper.clear,
        hper.ok.push (by rw [hx]; rfl) (fun h => by cases h) fun m hm => ?_⟩
      rw [hx] at hm
      exact (rest_holds hm).elim
    · cases hex

def outline : Outline machine keepsClear Loc where
  toDiscipline := rules
  post _ := False
  inv := Inv
  op_step hthr hok hinv hallow hex :=
    ⟨trivial, hinv.step hthr hok hallow hex⟩
  env_step {_ _ e} := nomatch e

theorem outline_start (k : Kind) : outline.Holds (start k) fun _ => .outside := by
  refine ⟨⟨fun l t => ?_, Census.zero fun _ => nofun, fun t => ?_⟩, fun _ => keeps_vcpu k⟩
  · exact ⟨nofun, fun hm => hm.elim (nomatch ·) (nomatch ·)⟩
  · exact ⟨⟨nofun, nofun⟩, ⟨nofun, nofun⟩, nofun, Loc.ok_outside⟩

-- ==== progress

/-- Some vCPU inside an access can go on, and keep clear of the others. -/
def GoesOn (s : Pool Op Ans Shared) : Prop :=
  ∃ u ∈ s.sh.inside, ∃ c s', keepsClear (.run u c) s ∧ machine.step (.run u c) s = some s'

section Progress

variable {s : Pool Op Ans Shared} {gh : Nat → Loc} {u : Nat}

theorem GoesOn.of_exec {o : Op} {k : Ans o → Prog Unit} {c : Choice}
    {r : Ans o × Shared} (hu : u ∈ s.sh.inside) (hthr : s.thr u = .op o k)
    (hclear : o = .take → s.sh.retaking = none)
    (hex : Shared.exec u c o s.sh = some r) : GoesOn s := by
  refine ⟨u, hu, c, ⟨r.2, update s.thr u (k r.1)⟩, ?_, ?_⟩
  · intro hhead
    rw [hthr] at hhead
    exact hclear (Option.some.inj hhead)
  · show machine.runThread u c s = _
    unfold System.runThread
    rw [hthr]
    show (Shared.exec u c o s.sh).map _ = _
    rw [hex]
    rfl

theorem GoesOn.of_iter {S T : Type} {body : S → Prog (S ⊕ T)} {i : S}
    {k : T → Prog Unit} (hu : u ∈ s.sh.inside)
    (hthr : s.thr u = .iter body i k) : GoesOn s := by
  refine ⟨u, hu, ⟨.cfgRead 0, false⟩, ⟨s.sh, update s.thr u (Proc.unroll body i k)⟩, ?_, ?_⟩
  · intro hhead
    rw [hthr] at hhead
    cases hhead
  · show machine.runThread u _ s = _
    unfold System.runThread
    rw [hthr]

/-- An operation that nothing blocks, whatever the choice. -/
theorem GoesOn.of_some {o : Op} {k : Ans o → Prog Unit}
    (hu : u ∈ s.sh.inside) (hthr : s.thr u = .op o k) (ho : o ≠ .take)
    (hex : (Shared.exec u ⟨.cfgRead 0, false⟩ o s.sh).isSome) : GoesOn s := by
  obtain ⟨r, hr⟩ := Option.isSome_iff_exists.mp hex
  exact .of_exec hu hthr (fun he => absurd he ho) hr

variable {l : Lock}

theorem acquire_isSome {s : Shared} (h : s.owner l = none) : (s.acquire u l).isSome := by
  unfold Shared.acquire Owners.acquire
  rw [if_pos h]
  rfl

theorem release_isSome {s : Shared} (h : s.owner l = some u) : (s.release u l).isSome := by
  unfold Shared.release Owners.release
  rw [if_pos h]
  rfl

/-- What a vCPU inside an access is up to: it can go on, or it waits for a
lock above all its own, or, with nothing in hand, for the deliveries. -/
inductive Waits (s : Pool Op Ans Shared) (x : Loc) : Prop
  | goes (h : GoesOn s)
  | lock (l : Lock) (v : Nat) (hown : s.sh.owner l = some v)
      (hlt : ∀ m, x.holds m → m.rank < l.rank)
  | settle (hx : x = .rest) (hpos : 0 < s.sh.inFlight)

theorem Waits.of_acquire {x : Loc} (hfree : s.sh.owner l = none → GoesOn s)
    (hlt : ∀ m, x.holds m → m.rank < l.rank) : Waits s x := by
  cases hown : s.sh.owner l with
  | none => exact .goes (hfree hown)
  | some v => exact .lock l v hown hlt

theorem inside_of_holds (h : Inv s.sh gh) (hl : (gh u).holds l) : u ∈ s.sh.inside := by
  refine (h.per u).ins.mpr ?_
  cases hin : (gh u).inside with
  | true => rfl
  | false =>
    rw [(h.per u).ok.out hin] at hl
    exact (rest_holds hl).elim

/-- Past the update only the release of `self_ref` is left. -/
theorem goesOn_of_finish (h : outline.Holds s gh) (hx : (gh u).phase = .finish) : GoesOn s := by
  have hself : (gh u).holds .selfRef := by
    refine .inr ?_
    rw [hx]
    rfl
  have hu := inside_of_holds h.1 hself
  have hown := (h.1.own .selfRef u).mpr hself
  have hbusy : ¬ (gh u).Calm := by
    intro hcalm
    rcases hcalm.2 with hp | hp
    · exact nomatch hx.symm.trans hp
    · exact nomatch hx.symm.trans hp
  have hkeep := h.2 u
  cases hthr : s.thr u with
  | ret r =>
    rw [hthr] at hkeep
    exact hkeep.elim
  | iter body i k => exact .of_iter hu hthr
  | op o k =>
    have hallow := h.allow hthr
    cases o with
    | releaseSelf => exact .of_some hu hthr nofun (release_isSome hown)
    | lock l | unlock l | count | uncount => exact (hbusy hallow.1).elim
    | pick | work => exact (hbusy hallow).elim
    | enter | leave | take | settle | takeSelf | drop | retake | release =>
      exact nomatch hx.symm.trans (congrArg Loc.phase hallow)

/-- The owner of `self_ref`, seen by a vCPU that holds the PCI state for a
move, is past its update. -/
theorem finish_of_takeSelf (h : Inv s.sh gh) (hx : (gh u).phase = .moving)
    {v : Nat} (hown : s.sh.owner .selfRef = some v) :
    (gh v).phase = .finish := by
  have hself := (h.own .selfRef v).mp hown
  have hpci : (gh u).holds .pci := by
    refine .inr ?_
    rw [hx]
    rfl
  -- one that holds the PCI state as well would be the vCPU itself
  have hfree : (gh v).phase.holds .pci = true → (gh v).phase = .moving := by
    intro hv
    rw [h.holder_unique hpci (.inr hv)]
    exact hx
  rcases hself with hin | hphase
  · exact absurd rfl ((h.per v).ok.apart _ hin).2
  · cases hp : (gh v).phase with
    | finish => rfl
    | retake =>
      have hret := (h.per v).ret.mpr hp
      rw [(h.per u).clear hx] at hret
      cases hret
    | plain | moving =>
      rw [hp] at hphase
      cases hphase
    | both | refresh =>
      rw [hp] at hfree
      exact nomatch hfree rfl

/-- Every vCPU inside an access goes on or waits for something above. -/
theorem waits (h : outline.Holds s gh) (hu : u ∈ s.sh.inside) : Waits s (gh u) := by
  have hkeep := h.2 u
  have hper := h.1.per u
  cases hthr : s.thr u with
  | ret r =>
    rw [hthr] at hkeep
    exact hkeep.elim
  | iter body i k => exact .goes (.of_iter hu hthr)
  | op o k =>
    have hallow := h.allow hthr
    -- an unlock of something held
    have hrelease : ∀ {l : Lock}, (gh u).holds l → (s.sh.release u l).isSome :=
      fun hl => release_isSome ((h.1.own _ u).mpr hl)
    cases o with
    | enter =>
      have hx : gh u = .outside := hallow
      have hin := hper.ins.mp hu
      rw [hx] at hin
      cases hin
    | leave | pick | work | uncount =>
      exact .goes (.of_some hu hthr (by simp) rfl)
    | count => exact .goes (.of_some hu hthr (by simp) rfl)
    | lock l =>
      refine .of_acquire (l := l) (fun hfree => ?_) hallow.2.2
      exact .of_some hu hthr (by simp) (acquire_isSome hfree)
    | unlock l =>
      refine .goes (.of_some hu hthr (by simp) (hrelease (.inl ?_)))
      exact List.mem_of_mem_head? hallow.2
    | take =>
      have hx : gh u = .rest := hallow
      have hnone : ∀ m l : Lock, (gh u).holds m → m.rank < l.rank := by
        intro m l hm
        rw [hx] at hm
        exact (rest_holds hm).elim
      cases hret : s.sh.retaking with
      | some v =>
        -- the one that is to retake it holds `self_ref`
        refine .lock .selfRef v ((h.1.own _ v).mpr (.inr ?_)) fun m => hnone m _
        rw [(h.1.per v).ret.mp hret]
        rfl
      | none =>
        refine .of_acquire (l := .pci) (fun hfree => ?_) fun m => hnone m _
        obtain ⟨r, hr⟩ :=
          Option.isSome_iff_exists.mp (acquire_isSome (u := u) hfree)
        exact .of_exec (c := ⟨.cfgRead 0, false⟩) hu hthr (fun _ => hret) hr
    | takeSelf =>
      have hx : gh u = .mid .moving := hallow
      cases hown : s.sh.owner .selfRef with
      | none => exact .goes (.of_some hu hthr (by simp) (acquire_isSome hown))
      | some v =>
        refine .goes (goesOn_of_finish h (finish_of_takeSelf (u := u) h.1 ?_ hown))
        exact congrArg Loc.phase hx
    | drop =>
      refine .goes (.of_some hu hthr (by simp) (release_isSome ((h.1.own .pci u).mpr (.inr ?_))))
      rw [show gh u = .mid .both from hallow]
      rfl
    | retake =>
      refine .of_acquire (l := .pci) (fun hfree => ?_) fun m hm => ?_
      · exact .of_some hu hthr (by simp) (acquire_isSome hfree)
      · rw [show gh u = .mid .retake from hallow, Loc.holds_mid] at hm
        obtain rfl : m = .selfRef := by simpa [Phase.holds] using hm
        decide
    | release =>
      refine .goes (.of_some hu hthr (by simp) (hrelease (.inr ?_)))
      rw [show gh u = .mid .refresh from hallow]
      rfl
    | releaseSelf =>
      refine .goes (.of_some hu hthr (by simp) (hrelease (.inr ?_)))
      rw [show gh u = .mid .finish from hallow]
      rfl
    | settle =>
      have hx : gh u = .rest := hallow
      by_cases hzero : s.sh.inFlight = 0
      · refine .of_acquire (l := .admission) (fun hfree => ?_) fun m hm => ?_
        · refine .of_some hu hthr (by simp) ?_
          simp only [Shared.exec, if_pos hzero]
          exact acquire_isSome hfree
        · rw [hx] at hm
          exact (rest_holds hm).elim
      · exact .settle hx (Nat.pos_of_ne_zero hzero)

/-- Whoever owns a lock, somebody goes on. -/
theorem goesOn_of_owner (h : outline.Holds s gh) {v : Nat}
    (hown : s.sh.owner l = some v) : GoesOn s := by
  refine exists_of_ranked Lock.rank_le (fun l v hown => ?_) hown
  have hl := (h.1.own l v).mp hown
  cases waits h (inside_of_holds h.1 hl) with
  | goes hgo => exact .inl hgo
  | lock m w hm hlt => exact .inr ⟨m, w, hm, hlt l hl⟩
  | settle hx =>
    rw [hx] at hl
    exact (rest_holds hl).elim

theorem goesOn_of_inside (h : outline.Holds s gh) (hu : u ∈ s.sh.inside) : GoesOn s := by
  cases waits h hu with
  | goes hgo => exact hgo
  | lock m w hm _ => exact goesOn_of_owner h hm
  | settle _ hpos =>
    -- a delivery in flight is a vCPU inside that does not settle
    obtain ⟨v, hv⟩ := h.1.tok.exists_of_pos hpos
    have hin : v ∈ s.sh.inside := by
      refine (h.1.per v).ins.mpr ?_
      cases hin : (gh v).inside with
      | true => rfl
      | false =>
        rw [(h.1.per v).ok.out hin] at hv
        cases hv
    cases waits h hin with
    | goes hgo => exact hgo
    | lock m w hm _ => exact goesOn_of_owner h hm
    | settle hx _ =>
      rw [hx] at hv
      cases hv

end Progress

-- ==== the results

/-- In a run in which no moving write locks the PCI state while another one
has yet to retake it, whenever a vCPU is inside an access some vCPU inside
an access can take its next step. -/
theorem accesses_progress (k : Kind) {s : Pool Op Ans Shared}
    (h : machine.Reach keepsClear (start k) s) {t : Nat}
    (ht : t ∈ s.sh.inside) :
    ∃ u ∈ s.sh.inside, ∃ c s', keepsClear (.run u c) s ∧
      machine.step (.run u c) s = some s' := by
  obtain ⟨gh, hgh⟩ := outline.sound (outline_start k) h
  exact goesOn_of_inside hgh ht

/-- A write to the command register. -/
def commandWrite : Choice := ⟨.cfgWrite 0x04, false⟩

/-- Two vCPUs inside, one of them with both locks of its moving write. -/
theorem accesses_progress_twoWriters :
    ∃ s, machine.Reach keepsClear (start .virtio) s ∧
      s.sh.inside = [1, 0] ∧ s.sh.owner .selfRef = some 0 ∧
      ∃ u ∈ s.sh.inside, ∃ c s', keepsClear (.run u c) s ∧
        machine.step (.run u c) s = some s' := by
  obtain ⟨s, hs, hp⟩ : ∃ s, machine.Reach keepsClear (start .virtio) s ∧
      s.sh.inside = [1, 0] ∧ s.sh.owner .selfRef = some 0 :=
    System.exists_reach (List.replicate 10 (.run 0 commandWrite) ++
      List.replicate 2 (.run 1 commandWrite)) (by decide)
  refine ⟨s, hs, hp.1, hp.2, accesses_progress .virtio hs (t := 0) ?_⟩
  rw [hp.1]
  decide

/-- A vCPU at a lock that another owns has no step. -/
theorem blocked {s : Pool Op Ans Shared} {u v : Nat} {o : Op} {l : Lock}
    (hhead : (s.thr u).head? = some o) (hown : s.sh.owner l = some v)
    (ho : o = .retake ∧ l = .pci ∨ o = .takeSelf ∧ l = .selfRef)
    (c : Choice) : machine.step (.run u c) s = none := by
  cases hthr : s.thr u with
  | ret r =>
    rw [hthr] at hhead
    cases hhead
  | iter body i k =>
    rw [hthr] at hhead
    cases hhead
  | op o' k =>
    rw [hthr] at hhead
    obtain rfl : o' = o := Option.some.inj hhead
    show machine.runThread u c s = none
    unfold System.runThread
    rw [hthr]
    rcases ho with ⟨rfl, rfl⟩ | ⟨rfl, rfl⟩
    · simp [machine, Shared.exec, Shared.acquire, Owners.acquire, hown]
    · simp [machine, Shared.exec, Shared.acquire, Owners.acquire, hown]

/-- A state in which two vCPUs are inside an access and neither can take a
step can be reached. -/
def Deadlocks (k : Kind) : Prop :=
  ∃ s, machine.Reach System.anyStep (start k) s ∧ s.sh.inside = [1, 0] ∧
    ∀ u ∈ s.sh.inside, ∀ c, machine.step (.run u c) s = none

/-- Two vCPUs write the command register: one has dropped the PCI state and
waits to lock it again with `self_ref` in hand, the other has locked it and
waits for `self_ref`. -/
theorem deadlocks_of_commandWrites (k : Kind) : Deadlocks k := by
  obtain ⟨s, hs, hin, hzero, hone, hpci, hself⟩ : ∃ s, machine.Reach System.anyStep (start k) s ∧
        s.sh.inside = [1, 0] ∧ (s.thr 0).head? = some .retake ∧
        (s.thr 1).head? = some .takeSelf ∧ s.sh.owner .pci = some 1 ∧
        s.sh.owner .selfRef = some 0 :=
    System.exists_reach (List.replicate 11 (.run 0 commandWrite) ++
      List.replicate 9 (.run 1 commandWrite)) (by cases k <;> decide)
  refine ⟨s, hs, hin, fun u hu c => ?_⟩
  rw [hin] at hu
  rcases List.mem_cons.mp hu with rfl | hu
  · exact blocked hone hself (.inr ⟨rfl, rfl⟩) c
  · obtain rfl : u = 0 := List.mem_singleton.mp hu
    exact blocked hzero hpci (.inl ⟨rfl, rfl⟩) c

/-- Each of the three devices can be brought to a deadlock. -/
theorem moving_writes_deadlock :
    Deadlocks .virtio ∧ Deadlocks .nvme ∧ Deadlocks .xhci :=
  ⟨deadlocks_of_commandWrites .virtio, deadlocks_of_commandWrites .nvme,
    deadlocks_of_commandWrites .xhci⟩

end Rshyve.Pci.Locks
