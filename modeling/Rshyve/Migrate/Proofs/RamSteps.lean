/-
# Every step keeps the memories in step

One lemma per operation of `Migrate.Session`, on the side it belongs to, and
one per move of the environment. Each says that `RamInv` holds again after
the step, with the thread's local state moved as `ramNext` says. The outline
at the end collects them.
-/
import Rshyve.Migrate.Proofs.Ram

namespace Rshyve.Migrate.Session

open Conc Discipline
open Mem (pageSize GuestMem RegionKind DirtyChunk poke peek)

variable {out : Outside} {R : List (Nat × Nat × RegionKind)}
  {w w' : World} {s : Src} {d : Dst} {wire : List (List UInt8)}

-- ==== frames on the wire

/-- A message that is no part of a pass ends the view, but not the leg. -/
theorem take_serialized (r : Receiver) (b : List UInt8) :
    (r.take out (.ok (.serialized b))).leg = r.leg ∧
    (r.take out (.ok (.serialized b))).sparse = r.sparse := by
  unfold Receiver.take
  split
  · exact ⟨rfl, rfl⟩
  · exact ⟨rfl, rfl⟩

theorem foldl_plain {fs : List (List UInt8)} (h : ∀ f ∈ fs, ∃ b, decode out f = .ok (.serialized b))
    (r : Receiver) :
    (fs.foldl (absorb out) r).leg = r.leg ∧
    (fs.foldl (absorb out) r).sparse = r.sparse := by
  induction fs generalizing r with
  | nil => exact ⟨rfl, rfl⟩
  | cons f fs ih =>
    obtain ⟨b, hb⟩ := h f List.mem_cons_self
    have hrest := ih (fun f' hf' => h f' (List.mem_cons_of_mem _ hf')) (absorb out r f)
    have hstep := @take_serialized out r b
    rw [← hb] at hstep
    rw [List.foldl_cons]
    exact ⟨hrest.1.trans hstep.1, hrest.2.trans hstep.2⟩

variable {r r' : Receiver}

/-- Where a receiver's leg goes does not depend on its memory. -/
theorem take_leg (h : r.leg = r'.leg) (x : Decoded) : (r.take out x).leg = (r'.take out x).leg := by
  unfold Receiver.take
  rw [h]
  by_cases hpast : r'.leg = .past
  · rw [if_pos hpast, if_pos hpast]
    exact h
  · rw [if_neg hpast, if_neg hpast]
    cases x with
    | error e => rfl
    | ok msg => cases msg <;> rfl

theorem foldl_leg (h : r.leg = r'.leg) (fs : List (List UInt8)) :
    (fs.foldl (absorb out) r).leg = (fs.foldl (absorb out) r').leg := by
  induction fs generalizing r r' with
  | nil => exact h
  | cons f fs ih => exact ih (take_leg h _)

/-- A receiver that has refused a message never accepts one again. -/
theorem foldl_refused (h : r.mem = none)
    (fs : List (List UInt8)) : (fs.foldl (absorb out) r).mem = none := by
  induction fs generalizing r with
  | nil => exact h
  | cons f fs ih =>
    refine ih ?_
    have hopen : r.unlessOpen = none := by
      unfold Receiver.unlessOpen
      rw [h, ite_self]
    unfold absorb Receiver.take
    split
    · exact h
    · split
      · rw [h]
        rfl
      · exact hopen
      · exact hopen
      · rw [hopen, ite_self]
      · rfl

/-- Only an end of pass finishes the last leg. -/
theorem leg_of_foldl_over {fs : List (List UInt8)}
    (hfs : fs.countP (isMemEnd out) = 0) {r : Receiver}
    (h : (fs.foldl (absorb out) r).leg = .past) : r.leg = .past := by
  induction fs generalizing r with
  | nil => exact h
  | cons f fs ih =>
    rw [List.countP_cons] at hfs
    have hrest : (absorb out r f).leg = .past := ih (by omega) h
    have hf : isMemEnd out f = false := by
      cases hf : isMemEnd out f with
      | false => rfl
      | true => simp [hf] at hfs
    by_cases hpast : r.leg = .past
    · exact hpast
    · unfold absorb Receiver.take at hrest
      rw [if_neg hpast] at hrest
      unfold isMemEnd at hf
      split at hrest
      · exact hrest
      · exact hrest
      next hdec =>
        rw [hdec] at hf
        cases hf
      · cases hrest
      · exact hrest

theorem View.serialized {r : Receiver} (h : View w s r) (b : List UInt8) :
    View w s (r.take out (.ok (.serialized b))) := by
  unfold Receiver.take
  split
  · exact h
  · exact ⟨h.leg, fun m hm => (nomatch hm)⟩

theorem not_isMemEnd_serialized {f b : List UInt8}
    (h : decode out f = .ok (.serialized b)) : isMemEnd out f = false := by
  unfold isMemEnd
  rw [h]

-- ==== the source moves

variable {f : List UInt8} {rest : List (List UInt8)}

section source

theorem deliver_src (f : List UInt8) (w : World) : ∃ n, deliver out srcTid f w =
      { w with
        toDst := if w.cut then w.toDst else w.toDst ++ [f]
        goAhead := n } := by
  unfold deliver
  by_cases hc : w.cut = true
  · refine ⟨w.goAhead, ?_⟩
    rw [if_pos hc, if_pos hc]
  · refine ⟨w.goAhead || f == encode out .okay, ?_⟩
    rw [if_neg hc, if_neg hc, if_pos rfl]

theorem openEnds_append (f : List UInt8) : openEnds out w d (wire ++ [f]) =
      openEnds out w d wire + if isMemEnd out f then 1 else 0 := by
  unfold openEnds
  rw [List.countP_append, List.countP_singleton]
  omega

theorem Src.sent_stage {x : Decoded} (hx : x ≠ .ok .memEnd) : (s.sent x).stage = s.stage := by
  cases x with
  | error e => rfl
  | ok msg =>
    cases msg with
    | memEnd => exact absurd rfl hx
    | _ => rfl

variable {e : Nat × List UInt8}

theorem Src.sent_got {x : Decoded} (he : e ∈ (s.sent x).got) : e ∈ s.got := by
  cases x with
  | error _ => exact he
  | ok msg =>
    cases msg with
    | pageBatch base count flags data => cases he
    | _ => exact he

theorem Src.sent_pause (x : Decoded) :
    (s.sent x).paused = s.paused ∧ (s.sent x).clean = s.clean := by
  cases x with
  | error _ => exact ⟨rfl, rfl⟩
  | ok msg => cases msg <;> exact ⟨rfl, rfl⟩

theorem getElem?_peek {bytes : Nat → UInt8} {gpa len i : Nat}
    (h : i < len) : (peek bytes gpa len)[i]? = some (bytes (gpa + i)) := by
  unfold peek
  rw [List.getElem?_map, List.getElem?_range h, Option.map_some]

/-- A page read beside the guest: its bytes, or a dirty page. -/
theorem readPage_fresh {c : Choice} {gpa : Nat} {page : List UInt8}
    (hal : gpa % pageSize = 0) (h : readPage c gpa w = some (.ok page)) :
    Fresh w (gpa, page) := by
  unfold readPage at h
  split at h
  · cases h
  · split at h
    · have hpage := Except.ok.inj (Option.some.inj h)
      refine ⟨⟨hal, ?_⟩, .inr fun a ha => ?_⟩
      · rw [← hpage]
        simp only [peek, List.length_map, List.length_range]
      · have hle : gpa ≤ a := by
          unfold pageSize at ha hal
          omega
        have hlt : a - gpa < pageSize := by
          unfold pageSize at ha hal ⊢
          omega
        rw [← hpage, getElem?_peek hlt, Nat.add_sub_cancel' hle]
    · split at h
      next hd =>
        cases h
        exact ⟨⟨hal, hd.1⟩, .inl hd.2⟩
      · cases h
    · cases h

variable {c : DirtyChunk} {bits : List UInt8}

/-- A dirty page of the chunk is among the reported ones. -/
theorem reports_dirty {p : Nat} (h : reports w.dirty c bits = true) (hp : chunkCovers c p)
    (hdirty : w.dirty p = true) :
    bitSet bits (p - c.gpa / pageSize) = true := by
  unfold reports at h
  rw [Bool.and_eq_true, List.all_eq_true] at h
  have hmem : p - c.gpa / pageSize ∈ List.range (c.len / pageSize) := by
    rw [List.mem_range]
    exact Nat.sub_lt_left_of_lt_add hp.1 hp.2
  have hbit := h.2 _ hmem
  rw [Nat.add_sub_cancel' hp.1, hdirty] at hbit
  simpa using hbit

theorem cleared_iff {dirty : Nat → Bool} {p : Nat} :
    cleared dirty c p = true ↔ dirty p = true ∧ ¬ chunkCovers c p := by
  unfold cleared chunkCovers
  simp only [Bool.and_eq_true, Bool.not_eq_true', Bool.and_eq_false_iff, decide_eq_false_iff_not]
  rw [not_and_or]

variable (h : RamInv out R w s d wire)
include h

/-- The stage rules out a late phase. -/
theorem RamInv.early (hs : s.stage ≠ .sealed) :
    ¬ MigrationPhase.timeData.toNat ≤ w.srcPhase.toNat :=
  fun hp => hs (h.phase hp)

theorem RamInv.src_setPhase {p : MigrationPhase}
    (hal : MigrationPhase.timeData.toNat ≤ p.toNat → s.stage = .sealed) :
    RamInv out R { w with srcPhase := p } s d wire :=
  { h with
    phase := hal
    view := fun hc hd => { h.view hc hd with } }

theorem RamInv.wire_sent (f : List UInt8) :
    (if w.cut then w.toDst else w.toDst ++ [f]) <+: wire ++ [f] ∧
    (w.cut = false → (if w.cut then w.toDst else w.toDst ++ [f]) = wire ++ [f]) := by
  cases hc : w.cut with
  | true =>
    refine ⟨?_, nofun⟩
    exact h.near.trans (List.prefix_append _ _)
  | false =>
    have heq : w.toDst ++ [f] = wire ++ [f] := by rw [h.whole hc]
    refine ⟨?_, fun _ => heq⟩
    show w.toDst ++ [f] <+: wire ++ [f]
    rw [heq]

/-- A call that leaves the source in doubt, past the last pass or not. -/
theorem RamInv.src_fail {wire' : List (List UInt8)} (hnear : w'.toDst <+: wire')
    (hwhole : w'.cut = false → w'.toDst = wire') (hsrc : w'.toSrc = w.toSrc)
    (hphase : w'.srcPhase = w.srcPhase)
    (hregs : w'.srcMem.regions = w.srcMem.regions) (hdst : w'.dstMem = w.dstMem)
    (hat : w'.ramAtPause = w.ramAtPause) : RamInv out R w' s.fail d wire' := by
  have hokay : ∀ f ∈ w'.toSrc, f.getLast? = some 0 → d ≠ .sync := by
    rw [hsrc]
    exact h.okay
  unfold Src.fail
  split
  next hs =>
    have hc : s.stage.counting = false := by
      rw [hs]
      rfl
    have hsealed := h.sealed hs
    constructor
    case near => exact hnear
    case whole => exact hwhole
    case regs => exact hregs.trans h.regs
    case phase => exact fun _ => hs
    case synced =>
      intro hd
      obtain ⟨g, hg⟩ := hsealed.1
      rw [hg] at hd
      cases hd
    case okay => exact hokay
    case plain =>
      intro _ h
      rw [hs] at h
      cases h
    case sealed =>
      intro _
      rw [hdst, hat]
      exact hsealed
    all_goals
      intro h
      first
      | (rw [hc] at h; cases h)
      | (rw [hs] at h; cases h)
  next hs =>
    refine RamInv.of_failed rfl hnear hwhole (hregs.trans h.regs) ?_ hokay
    rw [hphase]
    exact h.early hs

/-- A failed send, whether or not it has put its frame on the wire. -/
theorem RamInv.src_sendErr (f : List UInt8) (hw : w' = w ∨ w' = deliver out srcTid f w) :
    ∃ wire', RamInv out R w' s.fail d wire' := by
  rcases hw with rfl | rfl
  · exact ⟨wire, h.src_fail h.near h.whole rfl rfl rfl rfl rfl⟩
  · obtain ⟨n, hn⟩ := @deliver_src out f w
    rw [hn]
    obtain ⟨hnear, hwhole⟩ := h.wire_sent f
    exact ⟨wire ++ [f], h.src_fail hnear hwhole rfl rfl rfl rfl rfl⟩

theorem RamInv.src_sendSync {f b : List UInt8} (hf : decode out f = .ok (.serialized b)) :
    RamInv out R (deliver out srcTid f w) s d (wire ++ [f]) := by
  obtain ⟨n, hn⟩ := @deliver_src out f w
  rw [hn]
  obtain ⟨hnear, hwhole⟩ := h.wire_sent f
  have hend := not_isMemEnd_serialized hf
  refine { h with
    near := hnear, whole := hwhole, plain := ?_, count := ?_, view := ?_ }
  · intro hd hs
    obtain ⟨h1, h2, h3, h4⟩ := h.plain hd hs
    refine ⟨h1, h2, h3, fun g hg => ?_⟩
    rcases List.mem_append.mp hg with hg | hg
    · exact h4 g hg
    · rw [List.mem_singleton.mp hg]
      exact ⟨b, hf⟩
  · intro hc
    rw [openEnds_append, hend]
    exact h.count hc
  · intro hc hd
    have hv := @View.serialized out _ _ _ (h.view hc hd) b
    rw [← hf] at hv
    rw [List.foldl_append]
    exact { hv with }

theorem RamInv.src_sendLive (hs : s.stage = .live) (hal : s.maySend out R (decode out f)) :
    RamInv out R (deliver out srcTid f w) (s.sent (decode out f)) d (wire ++ [f]) := by
  obtain ⟨n, hn⟩ := @deliver_src out f w
  rw [hn]
  obtain ⟨hnear, hwhole⟩ := h.wire_sent f
  have hc : s.stage.counting = true := by
    rw [hs]
    rfl
  have hcount : openEnds out w d wire = 0 := by
    have := h.count hc
    rw [hs] at this
    exact Nat.le_zero.mp this
  have hd : d ≠ .sync := by
    intro hd
    rcases h.synced hd with h' | h' <;> rw [hs] at h' <;> cases h'
  have hsealed : s.stage ≠ .sealed := by
    rw [hs]
    nofun
  -- the stage moves only at an end of pass
  have hstage : ((s.sent (decode out f)).stage = .live ∧ isMemEnd out f = false) ∨
      ((s.sent (decode out f)).stage = .wait ∧ decode out f = .ok .memEnd) := by
    by_cases hx : decode out f = .ok .memEnd
    · rw [hx]
      exact .inr ⟨rfl, rfl⟩
    · refine .inl ⟨(Src.sent_stage hx).trans hs, ?_⟩
      unfold isMemEnd
      split
      next heq => exact absurd heq hx
      · rfl
  refine { h with
    near := hnear, whole := hwhole
    phase := fun hp => absurd (h.phase hp) hsealed
    synced := fun h' => absurd h' hd, plain := fun h' => absurd h' hd
    count := ?count, view := ?view, paused := ?paused, final := ?final
    acked := ?acked, sealed := ?sealed
    fresh := fun _ e he => h.fresh hc e (Src.sent_got he) }
  case count =>
    intro _
    show openEnds out w d (wire ++ [f]) ≤ _
    rw [openEnds_append, hcount]
    rcases hstage with ⟨hst, hend⟩ | ⟨hst, -⟩
    · rw [hst, hend]
      exact Nat.le_refl _
    · rw [hst, if_pos rfl]
      split <;> omega
  case view =>
    intro _ _
    have hv := (h.view hc hd).send hal (h.fresh hc)
    rw [List.foldl_append]
    exact { hv with }
  case paused =>
    intro _
    rw [(Src.sent_pause _).1, (Src.sent_pause _).2]
    exact h.paused hc
  case final =>
    intro hwait hpast
    rcases hstage with ⟨hst, -⟩ | ⟨-, hx⟩
    · rw [hst] at hwait
      cases hwait
    · rw [hx] at hal hpast ⊢
      obtain ⟨hleg, hpend, hlast⟩ := hal
      have hl : s.leg = .last := by
        cases hl : s.leg with
        | before =>
          have : s.leg.ended = .past := hpast
          rw [hl] at this
          cases this
        | last => rfl
        | past => exact absurd hl hleg
      obtain ⟨hp, hclean⟩ := hlast hl
      exact ⟨hp, fun a ha => ⟨hpend a ha, hclean a ha⟩⟩
  case acked =>
    rintro - - ⟨g, hg, hdone⟩
    have hzero : w.toSrc.countP (isMemDone out) = 0 := by
      unfold openEnds at hcount
      omega
    exact absurd hdone (List.countP_eq_zero.mp hzero g hg)
  case sealed =>
    intro h'
    rcases hstage with ⟨hst, -⟩ | ⟨hst, -⟩ <;> rw [hst] at h' <;> cases h'

theorem RamInv.of_toSrc (hsub : ∀ f ∈ rest, f ∈ w.toSrc)
    (hcount : rest.countP (isMemDone out) ≤ w.toSrc.countP (isMemDone out)) :
    RamInv out R { w with toSrc := rest } s d wire := by
  refine { h with
    okay := fun f hf => h.okay f (hsub f hf), count := ?_, acked := ?_
    view := fun hc hd => { h.view hc hd with } }
  · intro hc
    refine Nat.le_trans ?_ (h.count hc)
    unfold openEnds
    dsimp only
    omega
  · rintro hs hl ⟨f, hf, hdone⟩
    exact h.acked hs hl ⟨f, hsub f hf, hdone⟩

/-- The answer that ends the negotiation starts the passes. -/
theorem RamInv.src_synced (hs : s.stage = .sync) (hd : d ≠ .sync) :
    RamInv out R w { s with stage := .live } d wire := by
  have hc : s.stage.counting = true := by
    rw [hs]
    rfl
  have hearly := h.early (by rw [hs]; nofun)
  refine { h with
    phase := fun hp => absurd hp hearly
    synced := fun h' => absurd h' hd, plain := fun h' => absurd h' hd
    count := fun _ => ?_, view := fun _ _ => { h.view hc hd with }
    fresh := fun _ => h.fresh hc, paused := fun _ => h.paused hc
    final := nofun, acked := nofun, sealed := nofun }
  have := h.count hc
  rw [hs] at this
  exact this

/-- The answer to a pass: the destination has taken all of it. If it was the
last pass, its memory is the source's at the pause. -/
theorem RamInv.src_memDone (hs : s.stage = .wait) (hsrc : w.toSrc = f :: rest)
    (hf : decode out f = .ok .memDone) :
    RamInv out R { w with toSrc := rest }
      { s with stage := if s.leg = .past then .sealed else .live } d wire := by
  have hc : s.stage.counting = true := by
    rw [hs]
    rfl
  have hd : d ≠ .sync := by
    intro hd
    rcases h.synced hd with h' | h' <;> rw [hs] at h' <;> cases h'
  have hearly := h.early (by rw [hs]; nofun)
  have hokay : ∀ g ∈ rest, g.getLast? = some 0 → d ≠ .sync := fun _ _ _ => hd
  have hdone : isMemDone out f = true := by
    unfold isMemDone
    rw [hf]
  by_cases hpast : s.leg = .past
  · rw [if_pos hpast]
    obtain ⟨g, hg⟩ := h.acked hs hpast ⟨f, by rw [hsrc]; exact List.mem_cons_self, hdone⟩
    obtain ⟨hpaused, hram⟩ := h.final hs hpast
    obtain ⟨-, hat, hclean⟩ := h.paused hc hpaused
    have hview := h.view hc hd
    rw [hg, foldl_absorb_past rfl] at hview
    obtain ⟨-, hbytes⟩ := hview.mem w.dstMem rfl
    have hsame : ∀ a, InRam R a → w.dstMem.bytes a = w.srcMem.bytes a := by
      intro a ha
      obtain ⟨hpend, hcl⟩ := hram a ha
      rcases hbytes a with heq | hdirty | hp
      · exact heq
      · rw [hclean _ hcl] at hdirty
        cases hdirty
      · exact absurd hp hpend
    exact { h with
      phase := fun _ => rfl, synced := fun h' => absurd h' hd, okay := hokay
      plain := fun h' => absurd h' hd, count := nofun, view := nofun
      fresh := nofun, paused := nofun, final := nofun, acked := nofun
      sealed := fun _ => ⟨⟨g, hg⟩, w.srcMem.bytes, hat, hsame⟩ }
  · rw [if_neg hpast]
    have hcount : openEnds out { w with toSrc := rest } d wire = 0 := by
      have hle := h.count hc
      rw [if_pos hs] at hle
      unfold openEnds at hle ⊢
      rw [hsrc, List.countP_cons, if_pos hdone] at hle
      dsimp only
      omega
    exact { h with
      phase := fun hp => absurd hp hearly, synced := fun h' => absurd h' hd
      okay := hokay, plain := fun h' => absurd h' hd
      count := fun _ => Nat.le_of_eq hcount
      view := fun _ _ => { h.view hc hd with }, fresh := fun _ => h.fresh hc
      paused := fun _ => h.paused hc, final := nofun, acked := nofun
      sealed := nofun }

theorem RamInv.src_received (hal : s.stage = .sync ∨ s.stage = .wait ∨ s.stage = .sealed)
    (hsrc : w.toSrc = f :: rest) :
    RamInv out R { w with toSrc := rest } (s.received out f) d wire := by
  have hshort : RamInv out R { w with toSrc := rest } s d wire := by
    refine h.of_toSrc (fun g hg => ?_) ?_
    · rw [hsrc]
      exact List.mem_cons_of_mem _ hg
    · rw [hsrc, List.countP_cons]
      omega
  unfold Src.received
  rcases hal with hs | hs | hs
  · rw [hs]
    dsimp only
    split
    next h0 =>
      exact hshort.src_synced hs (h.okay f (by rw [hsrc]; exact List.mem_cons_self) h0)
    · exact hshort
  · rw [hs]
    dsimp only
    split
    next hdec => exact h.src_memDone hs hsrc hdec
    · refine RamInv.of_failed rfl h.near h.whole h.regs ?_ hshort.okay
      exact h.early (by rw [hs]; nofun)
  · rw [hs]
    exact hshort

theorem RamInv.src_read (he : Fresh w e) :
    RamInv out R w { s with got := s.got ++ [e] } d wire := by
  refine { h with
    view := fun hc hd => { h.view hc hd with }, fresh := fun hc e' he' => ?_ }
  rcases List.mem_append.mp he' with he' | he'
  · exact h.fresh hc e' he'
  · rw [List.mem_singleton.mp he']
    exact he

/-- Reading and clearing dirty bits moves the dirty pages of the chunk to
those still to be sent. -/
theorem RamInv.src_track (hs : s.stage = .live) (hgot : s.got = [])
    (hrep : reports w.dirty c bits = true) :
    RamInv out R { w with dirty := cleared w.dirty c } (s.tracked c bits) d
      wire := by
  refine { h with
    plain := ?_, view := ?_, fresh := ?_, paused := ?_, final := ?_ }
  · intro hd hs
    obtain ⟨h1, h2, h3, h4⟩ := h.plain hd hs
    exact ⟨h1, h2, fun p => .inl (h3 p), h4⟩
  · intro hc hd
    refine ⟨(h.view hc hd).leg, fun m hm => ?_⟩
    obtain ⟨hsparse, hbytes⟩ := (h.view hc hd).mem m hm
    refine ⟨hsparse, fun a => ?_⟩
    rcases hbytes a with heq | hdirty | hpend
    · exact .inl heq
    · by_cases hcov : chunkCovers c (a / pageSize)
      · exact .inr (.inr (.inr ⟨hcov, reports_dirty hrep hcov hdirty⟩))
      · exact .inr (.inl (cleared_iff.mpr ⟨hdirty, hcov⟩))
    · exact .inr (.inr (.inl hpend))
  · intro _ e he
    have he : e ∈ s.got := he
    rw [hgot] at he
    cases he
  · intro hc hp
    obtain ⟨h1, h2, h3⟩ := h.paused hc hp
    refine ⟨h1, h2, fun p hcl => ?_⟩
    rw [Bool.eq_false_iff]
    intro hdirty
    obtain ⟨hd, hcov⟩ := cleared_iff.mp hdirty
    rcases hcl with hcl | hcl
    · rw [h3 p hcl] at hd
      cases hd
    · exact hcov hcl
  · intro hwait
    have hwait : s.stage = .wait := hwait
    rw [hs] at hwait
    cases hwait

theorem RamInv.src_pause (hs : s.stage = .live) : RamInv out R (pauseVm srcTid w)
      { s with paused := true, clean := fun _ => False } d wire := by
  have hv : pauseVm srcTid w =
      { w with
        srcRunning := false
        srcPaused := true
        ramAtPause := some w.srcMem.bytes } := if_pos rfl
  rw [hv]
  refine { h with
    view := fun hc hd => { h.view hc hd with }
    paused := fun _ _ => ⟨rfl, rfl, nofun⟩, final := ?_, sealed := ?_ }
  · intro hwait
    rw [hs] at hwait
    cases hwait
  · intro hsealed
    rw [hs] at hsealed
    cases hsealed

theorem RamInv.srcStep {c : Choice} {o : Op} {a : Ans o} (hal : ramAllow out R (.src s) o)
    (hex : exec out srcTid c o w = some (a, w')) :
    ramCan R (.src s) o a ∧ ∃ s' wire', ramNext out (.src s) o a = .src s' ∧
      RamInv out R w' s' d wire' := by
  cases o with
  | setPhase p =>
    cases hex
    exact ⟨trivial, s, wire, rfl, h.src_setPhase hal⟩
  | send f =>
    refine ⟨trivial, ?_⟩
    rcases sendFrame_cases hex with ⟨rfl, rfl⟩ | ⟨e, rfl, rfl⟩ | ⟨e, -, rfl, rfl⟩
    · simp only [ramAllow] at hal
      refine ⟨if s.stage = .live then s.sent (decode out f) else s, wire ++ [f], rfl, ?_⟩
      cases hs : s.stage with
      | sync =>
        rw [hs] at hal
        obtain ⟨b, hb⟩ := hal
        exact h.src_sendSync hb
      | live =>
        rw [hs] at hal
        exact h.src_sendLive hs hal
      | wait =>
        rw [hs] at hal
        exact absurd hal id
      | failed =>
        rw [hs] at hal
        exact absurd hal id
      | sealed =>
        obtain ⟨n, hn⟩ := @deliver_src out f w
        obtain ⟨hnear, hwhole⟩ := h.wire_sent f
        have hf : s.fail = s := if_pos hs
        have hw := @RamInv.src_fail _ _ _ (deliver out srcTid f w) _ _ _ h (wire ++ [f])
        rw [hn, hf] at hw
        rw [hn]
        exact hw hnear hwhole rfl rfl rfl rfl rfl
    · obtain ⟨wire', hw⟩ := h.src_sendErr f (.inl rfl)
      exact ⟨_, wire', rfl, hw⟩
    · obtain ⟨wire', hw⟩ := h.src_sendErr f (.inr rfl)
      exact ⟨_, wire', rfl, hw⟩
  | recv =>
    refine ⟨trivial, ?_⟩
    rcases recvFrame_cases hex with ⟨f, rfl, htake⟩ | ⟨e, rfl, rfl⟩
    · unfold takeFrame at htake
      rw [if_pos rfl] at htake
      cases hsrc : w.toSrc with
      | nil =>
        rw [hsrc] at htake
        cases htake
      | cons g rest =>
        rw [hsrc] at htake
        cases htake
        exact ⟨_, wire, rfl, h.src_received hal hsrc⟩
    · exact ⟨s, wire, rfl, h⟩
  | memRead gpa =>
    have hex : (readPage c gpa w).map (fun a => (a, w)) = some (a, w') := hex
    obtain ⟨a', hread, heq⟩ := Option.map_eq_some_iff.mp hex
    cases heq
    cases a with
    | error e => exact ⟨trivial, s, wire, rfl, h⟩
    | ok page =>
      have hf := readPage_fresh hal.2 hread
      exact ⟨hf.1.2, _, wire, rfl, h.src_read hf⟩
  | trackChunk ch =>
    rcases trackBits_cases hex with ⟨b, rfl, hrep, rfl⟩ | ⟨e, rfl, rfl⟩
    · refine ⟨?_, _, wire, rfl, h.src_track hal.1 hal.2 hrep⟩
      unfold reports at hrep
      rw [Bool.and_eq_true] at hrep
      exact beq_iff_eq.mp hrep.1
    · exact ⟨trivial, s, wire, rfl, h⟩
  | pause =>
    refine ⟨trivial, ?_⟩
    rcases orRefuse_cases hex with ⟨rfl, rfl⟩ | ⟨e, rfl, rfl⟩
    · exact ⟨_, wire, rfl, h.src_pause hal⟩
    · exact ⟨s, wire, rfl, h⟩
  | resume =>
    have hex : orRefuse c w (resumeVm srcTid w) = some (a, w') := hex
    refine ⟨trivial, s.fail, wire, ?_, ?_⟩
    · cases a <;> rfl
    · rcases orRefuse_cases hex with ⟨-, rfl⟩ | ⟨e, -, rfl⟩
      · exact h.src_fail h.near h.whole rfl rfl rfl rfl rfl
      · exact h.src_fail h.near h.whole rfl rfl rfl rfl rfl
  | applyBatch base count flags data sparse => exact absurd hal id
  | regions =>
    cases hex
    exact ⟨h.regs, s, wire, rfl, h⟩
  | _ =>
    obtain rfl := exec_idle rfl hex
    exact ⟨trivial, s, wire, rfl, h⟩

end source

-- ==== the destination moves

section destination

variable {d' : Dst}

/-- Between negotiation and the last pass a thread can move on if its receiver
keeps its leg and its memory. -/
theorem RamInv.dst_move (h : RamInv out R w s d wire)
    {m' : GuestMem} (hd : d ≠ .sync) (hd' : d' ≠ .sync)
    (hacks : d'.acks ≤ d.acks)
    (hstand : d'.standing out m' = d.standing out w.dstMem ∨ (d'.standing out m').mem = none ∧
        (d'.standing out m').leg = (d.standing out w.dstMem).leg)
    (hpast : (∃ g, d = .pass .past g) → d' = d ∧ m' = w.dstMem) :
    RamInv out R { w with dstMem := m' } s d' wire := by
  refine { h with
    synced := fun h' => absurd h' hd', okay := fun _ _ _ => hd'
    plain := fun h' => absurd h' hd', count := ?_, view := ?_, acked := ?_
    sealed := ?_ }
  · intro hc
    refine Nat.le_trans ?_ (h.count hc)
    unfold openEnds
    dsimp only
    omega
  · intro hc _
    have hv := h.view hc hd
    rcases hstand with heq | ⟨hnone, hleg⟩
    · rw [heq]
      exact { hv with }
    · refine ⟨(foldl_leg hleg wire).trans hv.leg, fun m hm => ?_⟩
      rw [foldl_refused hnone] at hm
      cases hm
  · intro hs hl hf
    obtain ⟨g, hg⟩ := h.acked hs hl hf
    obtain ⟨rfl, -⟩ := hpast ⟨g, hg⟩
    exact ⟨g, hg⟩
  · intro hs
    obtain ⟨hp, hram⟩ := h.sealed hs
    obtain ⟨rfl, rfl⟩ := hpast hp
    exact ⟨hp, hram⟩

theorem deliver_dst (f : List UInt8) (w : World) : deliver out dstTid f w =
      { w with toSrc := if w.cut then w.toSrc else w.toSrc ++ [f] } := by
  unfold deliver
  by_cases hc : w.cut = true
  · rw [if_pos hc, if_pos hc]
  · rw [if_neg hc, if_neg hc, if_neg (by decide)]

/-- One more frame for the source, when it is neither the `Okay` of a
negotiation nor an answer to a pass. -/
theorem RamInv.dst_other (h : RamInv out R w s d wire)
    (hokay : f.getLast? = some 0 → d ≠ .sync) (hdone : isMemDone out f = false) :
    RamInv out R { w with toSrc := w.toSrc ++ [f] } s d wire := by
  refine { h with
    okay := ?_, count := ?_, acked := ?_
    view := fun hc hd => { h.view hc hd with } }
  · intro g hg
    rcases List.mem_append.mp hg with hg | hg
    · exact h.okay g hg
    · rw [List.mem_singleton.mp hg]
      exact hokay
  · intro hc
    refine Nat.le_trans ?_ (h.count hc)
    unfold openEnds
    rw [List.countP_append, List.countP_singleton, hdone]
    exact Nat.le_refl _
  · rintro hs hl ⟨g, hg, hgd⟩
    rcases List.mem_append.mp hg with hg | hg
    · exact h.acked hs hl ⟨g, hg, hgd⟩
    · rw [List.mem_singleton.mp hg, hdone] at hgd
      cases hgd

/-- The negotiation is over on the destination: it stands at the start of
the passes, or has failed to say so. -/
theorem RamInv.dst_synced (h : RamInv out R w s .sync wire)
    (hd' : d' = .pass .before none ∨ d' = .dead .before none) :
    RamInv out R w s d' wire := by
  have hne : d' ≠ .sync := by
    rcases hd' with rfl | rfl <;> nofun
  have hacks : d'.acks = 0 := by
    rcases hd' with rfl | rfl <;> rfl
  have hnot : ∀ st, s.stage = st → st = .sync ∨ st = .failed := by
    rintro st rfl
    exact h.synced rfl
  refine { h with
    synced := fun h' => absurd h' hne, okay := fun _ _ _ => hne
    plain := fun h' => absurd h' hne, count := ?_, view := ?_, acked := ?_
    sealed := ?_ }
  · intro hc
    have hle := h.count hc
    unfold openEnds at hle ⊢
    rw [hacks]
    exact hle
  · intro hc _
    have hs : s.stage = .sync := by
      rcases h.synced rfl with hs | hs
      · exact hs
      · rw [hs] at hc
        cases hc
    obtain ⟨hleg, hfetch, hpend, hwire⟩ := h.plain rfl hs
    obtain ⟨h1, h2⟩ := foldl_plain hwire (d'.standing out w.dstMem)
    have hstand : (d'.standing out w.dstMem).leg = .before ∧
        (d'.standing out w.dstMem).sparse = none := by
      rcases hd' with rfl | rfl <;> exact ⟨rfl, rfl⟩
    refine ⟨?_, fun m _ => ⟨?_, fun a => .inr (.inr (hpend _))⟩⟩
    · rw [h1, hstand.1, hleg]
    · rw [h2, hstand.2, hfetch]
  · intro hs
    rcases hnot _ hs with h' | h' <;> cases h'
  · intro hs
    rcases hnot _ hs with h' | h' <;> cases h'

/-- An end of pass is answered. If it was the last one, the destination is
past its passes. -/
theorem RamInv.dst_ack {leg : Leg} (h : RamInv out R w s (.ack leg) wire)
    (hd' : d' = .pass leg none ∨ d' = .dead leg none ∧ leg ≠ .past)
    {toSrc : List (List UInt8)}
    (hsrc : toSrc = w.toSrc ∨ toSrc = w.toSrc ++ [f]) :
    RamInv out R { w with toSrc := toSrc } s d' wire := by
  have hne : d' ≠ .sync := by
    rcases hd' with rfl | ⟨rfl, -⟩ <;> nofun
  have hacks : d'.acks = 0 := by
    rcases hd' with rfl | ⟨rfl, -⟩ <;> rfl
  have hmoved : RamInv out R { w with dstMem := w.dstMem } s d' wire := by
    refine h.dst_move nofun hne (by rw [hacks]; exact Nat.zero_le _) ?_ ?_
    · rcases hd' with rfl | ⟨rfl, -⟩
      · exact .inl rfl
      · exact .inr ⟨rfl, rfl⟩
    · rintro ⟨g, hg⟩
      cases hg
  have hone : toSrc.countP (isMemDone out) ≤ w.toSrc.countP (isMemDone out) + 1 := by
    rcases hsrc with rfl | rfl
    · omega
    · rw [List.countP_append, List.countP_singleton]
      split <;> omega
  refine { hmoved with
    okay := fun _ _ _ => hne, plain := fun h' => absurd h' hne, count := ?_
    view := fun hc hd => { hmoved.view hc hd with }, acked := ?_ }
  · intro hc
    refine Nat.le_trans ?_ (h.count hc)
    unfold openEnds
    rw [hacks]
    show _ ≤ wire.countP (isMemEnd out) + 1 + _
    dsimp only
    omega
  · intro hs hl _
    have hc : s.stage.counting = true := by
      rw [hs]
      rfl
    have hzero : wire.countP (isMemEnd out) = 0 := by
      have hle := h.count hc
      rw [if_pos hs] at hle
      unfold openEnds at hle
      have hone : (Dst.ack leg).acks = 1 := rfl
      omega
    have hleg : leg = .past := by
      refine @leg_of_foldl_over out _ hzero ((Dst.ack leg).standing out w.dstMem) ?_
      rw [(h.view hc nofun).leg]
      exact hl
    rcases hd' with rfl | ⟨-, hnot⟩
    · exact ⟨none, by rw [hleg]⟩
    · exact absurd hleg hnot

theorem isMemDone_iff : isMemDone out f = true ↔ decode out f = .ok .memDone := by
  unfold isMemDone
  split
  next h => exact ⟨fun _ => h, fun _ => rfl⟩
  next h => exact ⟨nofun, fun h' => absurd h' h⟩

/-- A frame from the destination, delivered or not. -/
theorem RamInv.dst_send (h : RamInv out R w s d wire)
    (hal : (∃ leg, d = .ack leg) ↔ decode out f = .ok .memDone) {ok : Bool}
    (hw : ok = false ∧ w' = w ∨ w' = deliver out dstTid f w) :
    RamInv out R w' s (d.sent f ok) wire := by
  -- the source's queue grows by the frame, or stays
  obtain ⟨toSrc, hsrc, rfl⟩ : ∃ toSrc, (toSrc = w.toSrc ∨
      toSrc = w.toSrc ++ [f]) ∧ w' = { w with toSrc := toSrc } := by
    rcases hw with ⟨-, rfl⟩ | rfl
    · exact ⟨w'.toSrc, .inl rfl, rfl⟩
    · rw [deliver_dst]
      refine ⟨_, ?_, rfl⟩
      split
      · exact .inl rfl
      · exact .inr rfl
  -- a frame that is no answer to a pass
  have hother : (∀ leg, d ≠ .ack leg) → ∀ d', RamInv out R w s d' wire →
      (f.getLast? = some 0 → d' ≠ .sync) →
      RamInv out R { w with toSrc := toSrc } s d' wire := by
    intro hnot d' hd' hokay
    rcases hsrc with rfl | rfl
    · exact hd'
    · refine hd'.dst_other hokay ?_
      rw [Bool.eq_false_iff]
      intro hdone
      obtain ⟨leg, hleg⟩ := hal.mpr (isMemDone_iff.mp hdone)
      exact hnot leg hleg
  cases d with
  | sync =>
    unfold Dst.sent
    dsimp only
    split
    · split
      · exact hother nofun _ (h.dst_synced (.inl rfl)) fun _ => nofun
      · exact hother nofun _ (h.dst_synced (.inr rfl)) fun _ => nofun
    next h0 => exact hother nofun _ h fun h' => absurd h' h0
  | ack leg =>
    refine h.dst_ack ?_ hsrc
    unfold Dst.sent
    dsimp only
    split
    · exact .inl rfl
    next hnot => exact .inr ⟨rfl, fun h' => hnot (.inr h')⟩
  | pass leg sparse => exact hother nofun _ h fun _ => nofun
  | apply leg base count flags data sparse =>
    exact hother nofun _ h fun _ => nofun
  | dead leg sparse => exact hother nofun _ h fun _ => nofun

theorem Dst.acks_le_one (d : Dst) : d.acks ≤ 1 := by
  cases d <;> simp [Dst.acks]

/-- Only an end of pass makes the destination owe an answer. -/
theorem Dst.acks_received (leg : Leg) (sparse : Option (List Nat))
    (x : Decoded) : (Dst.received out x (.pass leg sparse)).acks = 0 ∨
      x = .ok .memEnd ∧ (Dst.received out x (.pass leg sparse)).acks ≤ 1 := by
  cases x with
  | error e =>
    left
    cases leg <;> cases sparse <;> rfl
  | ok msg =>
    cases msg with
    | memEnd =>
      exact .inr ⟨rfl, Dst.acks_le_one _⟩
    | _ =>
      left
      cases leg <;> cases sparse <;> rfl

theorem Dst.received_ne_sync (leg : Leg) (sparse : Option (List Nat))
    (x : Decoded) : Dst.received out x (.pass leg sparse) ≠ .sync := by
  cases x with
  | error e => cases leg <;> cases sparse <;> nofun
  | ok msg => cases msg <;> cases leg <;> cases sparse <;> nofun

theorem RamInv.dst_recv (h : RamInv out R w s d wire)
    (hal : d = .sync ∨ ∃ leg sparse, d = .pass leg sparse)
    (hdst : w.toDst = f :: rest) :
    ∃ wire', RamInv out R { w with toDst := rest } s (d.received out (decode out f)) wire' := by
  obtain ⟨wire', rfl, hnear⟩ : ∃ wire', wire = f :: wire' ∧ rest <+: wire' := by
    obtain ⟨tail, htail⟩ := h.near
    rw [hdst] at htail
    exact ⟨rest ++ tail, htail.symm, List.prefix_append _ _⟩
  have hwhole : w.cut = false → rest = wire' := by
    intro hc
    have := h.whole hc
    rw [hdst] at this
    exact (List.cons.inj this).2
  refine ⟨wire', ?_⟩
  rcases hal with rfl | ⟨leg, sparse, rfl⟩
  · refine { h with
      near := hnear, whole := hwhole, plain := ?_, count := ?_
      view := fun _ h' => absurd rfl h' }
    · intro hd hs
      obtain ⟨h1, h2, h3, h4⟩ := h.plain hd hs
      exact ⟨h1, h2, h3, fun g hg => h4 g (List.mem_cons_of_mem _ hg)⟩
    · intro hc
      refine Nat.le_trans ?_ (h.count hc)
      unfold openEnds
      rw [List.countP_cons]
      show _ + 0 + _ ≤ _ + 0 + _
      dsimp only
      omega
  · have hne := @Dst.received_ne_sync out leg sparse (decode out f)
    have hstay : leg = .past → Dst.received out (decode out f)
        (.pass leg sparse) = .pass leg sparse := fun hl => if_pos hl
    refine { h with
      near := hnear, whole := hwhole, synced := fun h' => absurd h' hne
      okay := fun _ _ _ => hne, plain := fun h' => absurd h' hne, count := ?_
      view := ?_, acked := ?_, sealed := ?_ }
    · intro hc
      refine Nat.le_trans ?_ (h.count hc)
      unfold openEnds
      rw [List.countP_cons]
      have hpass : (Dst.pass leg sparse).acks = 0 := rfl
      rcases @Dst.acks_received out leg sparse (decode out f) with
        h0 | ⟨hx, h1⟩
      · rw [h0, hpass]
        dsimp only
        omega
      · have hend : isMemEnd out f = true := by
          unfold isMemEnd
          rw [hx]
        rw [if_pos hend, hpass]
        dsimp only
        omega
    · intro hc _
      have hv := h.view hc nofun
      rw [List.foldl_cons] at hv
      rw [standing_received]
      exact { hv with }
    · intro hs hl hf
      obtain ⟨g, hg⟩ := h.acked hs hl hf
      cases hg
      exact ⟨sparse, hstay rfl⟩
    · intro hs
      obtain ⟨⟨g, hg⟩, hram⟩ := h.sealed hs
      cases hg
      exact ⟨⟨sparse, hstay rfl⟩, hram⟩

theorem RamInv.dst_apply {leg : Leg} {base count flags : Nat}
    {data : List UInt8} {sparse : Option (List Nat)}
    (h : RamInv out R w s (.apply leg base count flags data sparse) wire)
    {a : Except MigrateError Unit}
    (ha : applyTo out base count flags data sparse w = (a, w')) :
    RamInv out R w' s (Dst.applied a.isOk (.apply leg base count flags data sparse))
      wire := by
  unfold applyTo at ha
  split at ha
  next m hm =>
    cases ha
    refine h.dst_move nofun nofun (Nat.le_refl _) (.inl ?_) ?_
    · show Receiver.mk leg none (some m) = ⟨leg, none, _⟩
      rw [hm]
      rfl
    · rintro ⟨g, hg⟩
      cases hg
  next e he =>
    cases ha
    refine h.dst_move nofun nofun (Nat.le_refl _) (.inl ?_) ?_
    · show Receiver.mk leg none none = ⟨leg, none, _⟩
      rw [he]
      rfl
    · rintro ⟨g, hg⟩
      cases hg

theorem RamInv.dstStep {c : Choice} {o : Op} {a : Ans o}
    (h : RamInv out R w s d wire) (hal : ramAllow out R (.dst d) o)
    (hex : exec out dstTid c o w = some (a, w')) :
    ramCan R (.dst d) o a ∧ ∃ d' wire', ramNext out (.dst d) o a = .dst d' ∧
      RamInv out R w' s d' wire' := by
  refine ⟨?_, ?_⟩
  · cases o <;> trivial
  cases o with
  | setPhase p =>
    cases hex
    exact ⟨d, wire, rfl, h.of_same ⟨rfl, rfl, rfl, rfl, rfl, rfl, rfl, rfl, rfl⟩⟩
  | send f =>
    refine ⟨d.sent f a.isOk, wire, ?_, h.dst_send hal ?_⟩
    · cases a <;> rfl
    · rcases sendFrame_cases hex with ⟨rfl, rfl⟩ | ⟨e, rfl, rfl⟩ | ⟨e, -, rfl, rfl⟩
      · exact .inr rfl
      · exact .inl ⟨rfl, rfl⟩
      · exact .inr rfl
  | recv =>
    rcases recvFrame_cases hex with ⟨f, rfl, htake⟩ | ⟨e, rfl, rfl⟩
    · unfold takeFrame at htake
      rw [if_neg (by decide)] at htake
      cases hdst : w.toDst with
      | nil =>
        rw [hdst] at htake
        cases htake
      | cons g rest =>
        rw [hdst] at htake
        cases htake
        obtain ⟨wire', hw⟩ := h.dst_recv hal hdst
        exact ⟨_, wire', rfl, hw⟩
    · exact ⟨d, wire, rfl, h⟩
  | applyBatch base count flags data sparse =>
    obtain ⟨leg, rfl⟩ := hal
    refine ⟨_, wire, ?_, h.dst_apply (Option.some.inj hex)⟩
    cases a <;> rfl
  | trackChunk ch => exact absurd hal id
  | pause =>
    refine ⟨d, wire, ?_, ?_⟩
    · cases a <;> rfl
    · rcases orRefuse_cases hex with ⟨-, rfl⟩ | ⟨e, -, rfl⟩
      · exact h
      · exact h
  | resume =>
    refine ⟨d, wire, ?_, ?_⟩
    · cases a <;> rfl
    · rcases orRefuse_cases hex with ⟨-, rfl⟩ | ⟨e, -, rfl⟩
      · exact h.of_same ⟨rfl, rfl, rfl, rfl, rfl, rfl, rfl, rfl, rfl⟩
      · exact h
  | _ =>
    obtain rfl := exec_idle rfl hex
    exact ⟨d, wire, rfl, h⟩

end destination

-- ==== the environment, the outline

theorem RamInv.cutAt (h : RamInv out R w s d wire) (n m : Nat) : RamInv out R
      { w with
        cut := true
        toDst := w.toDst.take n
        toSrc := w.toSrc.take m } s d wire := by
  have hsub : (w.toSrc.take m).countP (isMemDone out) ≤ w.toSrc.countP (isMemDone out) :=
    (List.take_sublist m w.toSrc).countP_le
  have hshort := h.of_toSrc (fun f hf => List.mem_of_mem_take hf) hsub
  exact { hshort with
    near := (List.take_prefix n w.toDst).trans h.near, whole := nofun
    view := fun hc hd => { h.view hc hd with } }

/-- A byte the guest's write leaves alone, or a page it touches. -/
theorem poke_touches (bytes : Nat → UInt8) (a : Nat) (data : List UInt8)
    (b : Nat) : poke bytes a data b = bytes b ∨ touches a data.length (b / pageSize) = true := by
  unfold poke touches
  by_cases hin : a ≤ b ∧ b < a + data.length
  · right
    unfold pageSize
    simp only [Bool.and_eq_true, decide_eq_true_eq]
    omega
  · left
    by_cases hle : a ≤ b
    · rw [if_pos hle, List.getElem?_eq_none (by omega), Option.getD_none]
    · rw [if_neg hle]

theorem RamInv.guestWrite (h : RamInv out R w s d wire)
    (hrun : w.srcRunning = true) (a : Nat) (data : List UInt8) :
    RamInv out R
      { w with
        srcMem := { w.srcMem with bytes := poke w.srcMem.bytes a data }
        dirty := fun p => w.dirty p || touches a data.length p } s d
      wire := by
  refine { h with view := ?_, fresh := ?_, paused := ?_ }
  · intro hc hd
    refine ⟨(h.view hc hd).leg, fun m hm => ?_⟩
    obtain ⟨hsparse, hbytes⟩ := (h.view hc hd).mem m hm
    refine ⟨hsparse, fun b => ?_⟩
    dsimp only
    rw [Bool.or_eq_true]
    rcases poke_touches w.srcMem.bytes a data b with heq | htouch
    · rw [heq]
      rcases hbytes b with h' | h' | h'
      · exact .inl h'
      · exact .inr (.inl (.inl h'))
      · exact .inr (.inr h')
    · exact .inr (.inl (.inr htouch))
  · intro hc e he
    obtain ⟨hwhole, hfresh⟩ := h.fresh hc e he
    refine ⟨hwhole, ?_⟩
    dsimp only
    rw [Bool.or_eq_true]
    rcases hfresh with hdirty | hbytes
    · exact .inl (.inl hdirty)
    · by_cases ht : touches a data.length (e.1 / pageSize) = true
      · exact .inl (.inr ht)
      · right
        intro b hb
        rw [hbytes b hb]
        rcases poke_touches w.srcMem.bytes a data b with heq | htouch
        · rw [heq]
        · rw [hb] at htouch
          exact absurd htouch ht
  · intro hc hp
    rw [(h.paused hc hp).1] at hrun
    cases hrun

/-- The invariant over the threads' local states. -/
def ramInv (out : Outside) (R : List (Nat × Nat × RegionKind)) (w : World)
    (gh : Nat → Party) : Prop :=
  ∃ s d wire, gh srcTid = .src s ∧ gh dstTid = .dst d ∧
    (∀ t, t ≠ srcTid → t ≠ dstTid → gh t = .idle) ∧
    RamInv out R w s d wire

/-- The discipline and the invariant of the RAM transfer. -/
def ramOutline (out : Outside) (R : List (Nat × Nat × RegionKind)) :
    Outline (system out) System.anyStep Party where
  toDiscipline := ramRules out R
  post _ := True
  inv := ramInv out R
  op_step := by
    rintro st t c o k a w' gh ht - ⟨s, d, wire, hs, hd, hrest, hinv⟩ hal hex
    by_cases h0 : t = srcTid
    · subst h0
      rw [hs] at hal ⊢
      obtain ⟨hcan, s', wire', hnext, hinv'⟩ := hinv.srcStep hal hex
      refine ⟨hcan, s', d, wire', ?_, ?_, ?_, hinv'⟩
      · rw [Function.update_self]
        exact hnext
      · rw [Function.update_of_ne (by decide)]
        exact hd
      · intro u hu0 hu1
        rw [Function.update_of_ne hu0]
        exact hrest u hu0 hu1
    · by_cases h1 : t = dstTid
      · subst h1
        rw [hd] at hal ⊢
        obtain ⟨hcan, d', wire', hnext, hinv'⟩ := hinv.dstStep hal hex
        refine ⟨hcan, s, d', wire', ?_, ?_, ?_, hinv'⟩
        · rw [Function.update_of_ne (by decide)]
          exact hs
        · rw [Function.update_self]
          exact hnext
        · intro u hu0 hu1
          rw [Function.update_of_ne hu1]
          exact hrest u hu0 hu1
      · rw [hrest t h0 h1] at hal
        exact absurd hal id
  env_step := by
    rintro st st' e gh - ⟨s, d, wire, hs, hd, hrest, hinv⟩ hthr henv
    obtain ⟨w, hw, rfl⟩ := Option.map_eq_some_iff.mp henv
    refine ⟨gh, ⟨s, d, wire, hs, hd, hrest, ?_⟩, hthr⟩
    unfold envWorld at hw
    split at hw
    · cases hw
      exact hinv.cutAt _ _
    · split at hw
      next hrun =>
        cases hw
        exact hinv.guestWrite hrun _ _
      · cases hw

end Rshyve.Migrate.Session
