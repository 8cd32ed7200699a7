/-
# The passes carry the guest's memory over

Both programs keep the rules of `Migrate.Proofs.Ram`: the destination loop
by loop, the source pass by pass. On the source the argument is about one
set, the pages still to be sent. Tracking a region adds the pages its bitmap
names; the batches cut from that bitmap take them out again; so a region
leaves the set no larger than it was, and the full pass leaves it without
the region.
-/
import Rshyve.Migrate.Proofs.RamSteps
import Rshyve.Migrate.Proofs.Quiet

namespace Rshyve.Migrate.Session

open Conc Discipline
open Mem (pageSize RegionKind DirtyChunk dirtyChunk chunksFrom dirtyChunks checkedAdd_some splice)
open Keeps (andThen ofExcept seq)

variable {out : Outside} {R : List (Nat × Nat × RegionKind)}

-- ==== the destination

section destination

/-- The calls of a destination outside its passes. The `Okay` that ends the
negotiation opens them, and `MemDone` only answers one. -/
@[reducible, simp] def Aside (d : Dst) : Op → Prop
  | .send f => f.getLast? ≠ some 10 ∧ (d = .sync → f.getLast? ≠ some 0)
  | .applyBatch .. | .trackChunk _ => False
  | _ => True

theorem aside_step {d : Dst} {o : Op} (hd : d = .sync ∨ d = .pass .past none)
    (ho : Aside d o) :
    ramAllow out R (.dst d) o ∧ ∀ a, ramNext out (.dst d) o a = .dst d := by
  cases o with
  | send f =>
    refine ⟨⟨?_, fun h => absurd (getLast_of_decode h) ho.1⟩, fun a => ?_⟩
    · rintro ⟨leg, rfl⟩
      rcases hd with h | h <;> cases h
    · rcases hd with rfl | rfl
      · exact congrArg Party.dst (if_neg (ho.2 rfl))
      · rfl
  | recv =>
    refine ⟨hd.imp_right fun h => ⟨_, _, h⟩, fun a => ?_⟩
    rcases hd with rfl | rfl <;> cases a <;> rfl
  | applyBatch | trackChunk => exact ho.elim
  | _ => exact ⟨trivial, fun _ => rfl⟩

theorem steady_aside {d : Dst} {o : Op} {Q : Party → Ans o → Prop}
    (hd : d = .sync ∨ d = .pass .past none) (ho : Aside d o) :
    (ramRules out R).Steady (R := no_index (Ans o)) (.call o) Q (.dst d) ↔
      ∀ a, ramCan R (.dst d) o a → Q (.dst d) a := by
  obtain ⟨hallow, hnext⟩ : ramAllow out R (.dst d) o ∧ _ := aside_step hd ho
  refine steady_call.trans ((and_iff_right hallow).trans ?_)
  refine forall_congr' fun a => imp_congr_right fun _ => iff_of_eq ?_
  exact congrArg (Q · a) (hnext a)

/-- The negotiation ends where the passes start. -/
theorem steady_destSync {cfg : DestConfig} : (ramRules out R).Steady
    (destSync out destIo cfg).run
    (fun l r => r = .ok () → l = .dst (.pass .before none)) (.dst .sync) := by
  have hcheck (p : MigrationPreamble)
      {Q : Party → Except MigrateError Unit → Prop}
      (hQ : ∀ r, Q (.dst .sync) r) :
      (ramRules out R).Steady (reporting out destIo
        (ExceptT.mk (pure (checkPreamble out cfg p)))).run Q (.dst .sync) := by
    unfold reporting
    cases checkPreamble out cfg p <;>
      simp [reportFailure, chanSend, attempt_run, steady_aside, hQ, Message.tag]
  simp [-ExceptT.run_bind, destSync, checkOffer, chanSendSerialized, chanSend,
    chanExpectSerialized, chanRecv, attempt_run, attemptE, try_iff,
    steady_aside, serialized_eq_ok, Message.tag]
  intros
  refine hcheck _ fun r => ?_
  cases r with
  | error e => simp
  | ok _ =>
    refine ⟨⟨by simp, fun h => ?_⟩, fun a _ => ?_⟩
    · have htag := getLast_of_decode h
      rw [encode_getLast] at htag
      cases htag
    · cases a with
      | error e =>
        intro h
        cases h
      | ok _ =>
        intro _
        show Party.dst (Dst.sent (encode out .okay) true .sync) = _
        unfold Dst.sent
        rw [encode_getLast]
        rfl

/-- The leg a pass is received in. -/
def legOf : PassEnd → Leg
  | .pauseSignal => .before
  | .memEnd => .last

/-- The leg it ends in. -/
def legAfter : PassEnd → Leg
  | .pauseSignal => .last
  | .memEnd => .past

/-- What a round leaves: the next round's start, the next leg, or an
error. -/
def RoundEnds («until» : PassEnd) (l : Party) : Option (List Nat) ⊕ Except MigrateError Unit → Prop
  | .inl sparse => l = .dst (.pass (legOf «until») sparse)
  | .inr (.ok _) => l = .dst (.pass (legAfter «until») none)
  | .inr (.error _) => True

theorem keeps_applyBatch {«until» : PassEnd} {leg : Leg}
    {base count flags : Nat} {data : List UInt8} {gpas : Option (List Nat)}
    (hleg : leg = legOf «until») :
    (ramRules out R).Keeps (do
        match ← destIo.applyBatch base count flags data gpas with
        | .ok () => pure (.inl none)
        | .error e => pure (.inr (.error e)))
      (RoundEnds «until»)
      (.dst (.apply leg base count flags data gpas)) := by
  refine ⟨⟨leg, rfl⟩, fun a _ => ?_⟩
  cases a with
  | error e => trivial
  | ok _ =>
    show Party.dst (.pass leg none) = .dst (.pass (legOf «until») none)
    rw [hleg]

theorem keeps_answer {«until» : PassEnd} : (ramRules out R).Keeps (do
        match ← (chanSend out destIo.sendFrame .memDone).run with
        | .error e => pure (.inr (.error e))
        | .ok () =>
          if «until» = .memEnd then pure (.inr (.ok ()))
          else pure (.inl none))
      (RoundEnds «until») (.dst (.ack (legOf «until»).ended)) := by
  refine seq (keeps_attempt ⟨?_, fun a _ => ?_⟩)
  · exact ⟨fun _ => decode_encode .memDone, fun _ => ⟨_, rfl⟩⟩
  · cases a with
    | error e => trivial
    | ok _ =>
      cases «until» with
      | pauseSignal => rfl
      | memEnd => rfl

theorem keeps_receiveRound («until» : PassEnd) (sparse : Option (List Nat)) :
    (ramRules out R).Keeps (receiveRound out destIo «until» sparse)
      (RoundEnds «until») (.dst (.pass (legOf «until») sparse)) := by
  refine seq (keeps_chanRecv ⟨.inr ⟨_, _, rfl⟩, fun r _ => ?_⟩)
  cases r with
  | error e => trivial
  | ok f =>
    rw [keeps_ret]
    show (ramRules out R).Keeps _ _ (.dst (Dst.received out (decode out f)
      (.pass (legOf «until») sparse)))
    generalize decode out f = x
    cases x with
    | error e => trivial
    | ok msg =>
      cases msg with
      | pageBatch base count flags data =>
        cases «until» with
        | pauseSignal => exact keeps_applyBatch rfl
        | memEnd => exact keeps_applyBatch rfl
      | memFetch gpas =>
        cases sparse with
        | some g => trivial
        | none => cases «until» <;> rfl
      | memEnd =>
        cases sparse with
        | some g => trivial
        | none =>
          cases «until» with
          | pauseSignal => exact keeps_answer
          | memEnd => exact keeps_answer
      | pauseSignal =>
        cases sparse with
        | some g => trivial
        | none =>
          cases «until» with
          | pauseSignal => rfl
          | memEnd => trivial
      | okay => cases sparse <;> trivial
      | error e => cases sparse <;> trivial
      | serialized b => cases sparse <;> trivial
      | memDone => cases sparse <;> trivial

theorem keeps_receivePass («until» : PassEnd) :
    (ramRules out R).Keeps (receivePass out destIo «until»).run
      (fun l r => r = .ok () → l = .dst (.pass (legAfter «until») none))
      (.dst (.pass (legOf «until») none)) := by
  refine keeps_loop (fun sparse l => l = .dst (.pass (legOf «until») sparse)) rfl ?_
  rintro sparse l rfl
  refine (keeps_receiveRound «until» sparse).mono ?_
  intro l x hx
  cases x with
  | inl sparse' => exact hx
  | inr r =>
    rintro rfl
    exact hx

theorem keeps_destRam : (ramRules out R).Keeps (destRam out destIo).run
      (fun l r => r = .ok () → l = .dst (.pass .past none))
      (.dst (.pass .before none)) := by
  refine ⟨trivial, fun _ _ => ?_⟩
  refine (keeps_receivePass .pauseSignal).tryThen (fun _ _ _ h => (nomatch h)) ?_
  intro l _ hl
  rw [hl rfl]
  refine ⟨trivial, fun _ _ => ⟨trivial, fun a _ => ?_⟩⟩
  cases a with
  | error e => exact fun h => (nomatch h)
  | ok _ =>
    refine (keeps_receivePass .memEnd).tryThen (fun _ _ _ h => (nomatch h)) ?_
    intro l _ hl
    rw [hl rfl]
    refine keeps_attempt ⟨trivial, fun a _ => ?_⟩
    cases a with
    | error e => exact fun h => (nomatch h)
    | ok _ => exact fun _ => rfl

theorem keeps_runDestination_ram {cfg : DestConfig} :
    (ramRules out R).Keeps (runDestination out destIo cfg) (fun _ _ => True) (.dst .sync) := by
  have hpast (o : Op) (ho : Aside (.pass .past none) o) :
      (ramRules out R).Stays (· = .dst (.pass .past none)) (call o) := by
    rintro l rfl
    exact ((steady_aside (.inr rfl) ho).mpr fun _ _ => rfl).keeps
  have himport (o : Op) (ho : Imports o) : Aside (.pass .past none) o := by
    cases o <;> simp_all
  have hfinish : Only (Aside (.pass .past none)) (destFinish out destIo).run
      fun _ => True := by
    simp [-ExceptT.run_bind, destFinish, chanSend, chanExpectOkay, chanRecv,
      attempt_run, attemptE, try_iff, Message.tag]
  refine steady_destSync.keeps.tryThen (fun _ _ _ => trivial) ?_
  intro l _ hl
  rw [hl rfl]
  refine keeps_destRam.tryThen (fun _ _ _ => trivial) ?_
  intro l _ hl
  rw [hl rfl]
  refine Keeps.after (stays_only (imports_destState cfg)
    fun o ho => hpast o (himport o ho)) (fun _ => trivial) fun _ => ?_
  exact (stays_only hfinish hpast).keeps rfl fun _ _ _ => trivial

end destination

-- ==== one batch

/-- The source between two batches of a pass. -/
def between (leg : Leg) (paused : Bool) (pend clean : Nat → Prop) : Party :=
  .src ⟨.live, leg, paused, pend, clean, [], none⟩

/-- A part ends in `Q`, or with an error; an error only leaves the
rollback. -/
def OrErr {ε α : Type} (Q : Party → α → Prop) (l : Party) : Except ε α → Prop
  | .ok a => Q l a
  | .error _ => ∃ s, l = .src s

theorem keeps_okMono {ε α : Type} {p : Prog (Except ε α)} {l : Party}
    {Q Q' : Party → α → Prop} (h : (ramRules out R).Keeps p (OrErr Q) l)
    (hQ : ∀ l a, Q l a → Q' l a) : (ramRules out R).Keeps p (OrErr Q') l := by
  refine h.mono ?_
  intro l r hr
  cases r with
  | error e => exact hr
  | ok a => exact hQ l a hr

theorem keeps_sendLive {s : Src} (hs : s.stage = .live) {m : Message}
    {x : Decoded} (hx : decode out (encode out m) = x)
    (hmay : s.maySend out R x)
    {Q : Party → Except MigrateError Unit → Prop}
    (herr : ∀ e, Q (.src s.fail) (.error e))
    (hok : Q (.src (s.sent x)) (.ok ())) :
    (ramRules out R).Keeps (chanSend out sourceIo.sendFrame m).run Q (.src s) := by
  refine keeps_attempt ⟨?_, fun a _ => ?_⟩
  · simp only [ramRules, ramAllow]
    rw [hs, hx]
    exact hmay
  · cases a with
    | error e => exact herr _
    | ok _ =>
      show Q (.src (if s.stage = .live then s.sent (decode out _) else s)) _
      rw [if_pos hs, hx]
      exact hok

theorem decode_pageBatch {base count flags n : Nat} {data : List UInt8}
    (hb : base < 2 ^ 64) (hc : pageBufferLen count = .ok n)
    (hf : flags < 2) :
    decode out (encode out (.pageBatch base count flags data))
      = .ok (.pageBatch base count flags data) := by
  unfold pageBufferLen at hc
  split at hc
  · cases hc
  next hcount =>
    rw [decode_encode]
    exact decodePageBatch_payload hb (by omega) (by omega) hf

variable {gpas : List Nat}

/-- An address list of a length the source sends comes through its frame. -/
theorem decode_memFetch (hout : Faithful out) (words : List (BitVec 64))
    {n : Nat} (hc : pageBufferLen words.length = .ok n) :
    decode out (encode out (.memFetch words)) = .ok (.memFetch words) := by
  obtain ⟨d, hser, hde⟩ := hout.gpas words
  have hlen : ¬ words.length > maxSparseGpas := by
    unfold pageBufferLen at hc
    split at hc
    · cases hc
    next h => exact fun hlt => h (.inr hlt)
  have hpay : (Message.memFetch words).payload out = d := by
    simp only [Message.payload, hser]
  rw [decode_encode]
  rw [hpay]
  unfold decodeMemFetch
  rw [hde]
  exact if_neg hlen

/-- Addresses of 64 bits come back from their words. -/
theorem map_toNat_ofNat {gpas : List Nat} (h : ∀ g ∈ gpas, g < 2 ^ 64) :
    (gpas.map (BitVec.ofNat 64)).map BitVec.toNat = gpas := by
  rw [List.map_map]
  refine (List.map_congr_left fun g hg => ?_).trans (List.map_id gpas)
  exact Nat.mod_eq_of_lt (h g hg)

theorem pageCountU32_ok {count n : Nat} (h : pageCountU32 count = .ok n) : n = count := by
  unfold pageCountU32 at h
  split at h
  · cases h
    rfl
  · cases h

theorem keeps_readPagesFrom {s : Src} (hs : s.stage = .live)
    {gpas : List Nat} (hal : ∀ gpa ∈ gpas, gpa % pageSize = 0)
    (buf : List UInt8) :
    (ramRules out R).Keeps (readPagesFrom sourceIo gpas buf).run (OrErr fun l buf' => ∃ pages,
        l = .src { s with got := s.got ++ gpas.zip pages } ∧
        pages.length = gpas.length ∧ (∀ p ∈ pages, p.length = pageSize) ∧
        buf' = buf ++ pages.flatten) (.src s) := by
  induction gpas generalizing s buf with
  | nil =>
    refine ⟨[], ?_, rfl, nofun, ?_⟩
    · rw [List.zip_nil_left, List.append_nil]
    · rw [List.flatten_nil, List.append_nil]
  | cons gpa gpas ih =>
    refine andThen (keeps_attempt ⟨⟨hs, hal gpa List.mem_cons_self⟩, fun r hcan => ?_⟩)
    cases r with
    | error e => exact ⟨s, rfl⟩
    | ok page =>
      have hrest := @ih { s with got := s.got ++ [(gpa, page)] } hs
        (fun g hg => hal g (List.mem_cons_of_mem _ hg)) (buf ++ page)
      refine (keeps_okMono hrest ?_ :)
      rintro l buf' ⟨pages, hl, hlen, hpages, hbuf⟩
      refine ⟨page :: pages, ?_, ?_, ?_, ?_⟩
      · rw [hl, List.zip_cons_cons, List.append_assoc]
        rfl
      · rw [List.length_cons, List.length_cons, hlen]
      · exact List.forall_mem_cons.mpr ⟨hcan, hpages⟩
      · rw [hbuf, List.flatten_cons, List.append_assoc]

theorem keeps_readPages {leg : Leg} {paused : Bool} {P C : Nat → Prop}
    (hal : ∀ gpa ∈ gpas, gpa % pageSize = 0) :
    (ramRules out R).Keeps (readPages sourceIo gpas).run (OrErr fun l buf => ∃ pages,
        l = .src ⟨.live, leg, paused, P, C, gpas.zip pages, none⟩ ∧
        pages.length = gpas.length ∧ (∀ p ∈ pages, p.length = pageSize) ∧
        buf = pages.flatten) (between leg paused P C) :=
  ofExcept (fun _ _ => ⟨_, rfl⟩) fun _ _ =>
    @keeps_readPagesFrom out R ⟨.live, leg, paused, P, C, [], none⟩ rfl gpas hal []

/-- A part of a pass that sends the pages at `gpas` and changes nothing
else. -/
def SendsPages (leg : Leg) (paused : Bool) (P C : Nat → Prop)
    (gpas : List Nat) (l : Party) : Prop :=
  ∃ P', l = between leg paused P' C ∧ ∀ p, P' p → P p ∧ ∀ gpa ∈ gpas, gpa / pageSize ≠ p

variable {gpa : Nat}

theorem mem_zip_fst {pages : List (List UInt8)}
    (hlen : pages.length = gpas.length) (h : gpa ∈ gpas) :
    ∃ e ∈ gpas.zip pages, e.1 = gpa := by
  have hmap : (gpas.zip pages).map Prod.fst = gpas :=
    List.map_fst_zip (Nat.le_of_eq hlen.symm)
  rw [← hmap] at h
  obtain ⟨e, he, heq⟩ := List.mem_map.mp h
  exact ⟨e, he, heq⟩

variable {leg : Leg} {paused : Bool} {P C P₀ : Nat → Prop}

/-- A page of a region. -/
def pageIn (gpa len p : Nat) : Prop :=
  gpa / pageSize ≤ p ∧ p < gpa / pageSize + len / pageSize

/-- A region tracked from address `g` on: of its pages only those the bitmap
names are still to be sent on top of `P₀`, and all of them are clean. -/
def Tracked (leg : Leg) (paused : Bool) (P₀ C : Nat → Prop)
    (gpa stop g : Nat) (l : Party) (bm : List UInt8) : Prop :=
  ∃ P' C', l = between leg paused P' C' ∧ (∀ p, P' p → P₀ p ∨ (pageIn gpa (stop - gpa) p ∧
      bitSet bm (p - gpa / pageSize) = true)) ∧
    (∀ p, C p → C' p) ∧
    ∀ p, g / pageSize ≤ p → p < stop / pageSize → C' p

/-- The pages found so far, all of them below `g`. -/
def FoundBelow (P P₀ : Nat → Prop) (gpa stop g : Nat) (bitmap : List UInt8) : Prop :=
  ∀ p, P p → P₀ p ∨ (pageIn gpa (stop - gpa) p ∧ p < g / pageSize ∧
    bitSet bitmap (p - gpa / pageSize) = true)

variable {bitmap : List UInt8}

theorem tracked_done {stop g : Nat} (hP : FoundBelow P P₀ gpa stop g bitmap) (hge : stop ≤ g) :
    Tracked leg paused P₀ C gpa stop g (between leg paused P C) bitmap := by
  refine ⟨P, C, rfl, fun p hp => ?_, fun _ h => h, fun p h1 h2 => ?_⟩
  · rcases hP p hp with h | ⟨h1, -, h3⟩
    · exact .inl h
    · exact .inr ⟨h1, h3⟩
  · have := Nat.div_le_div_right (c := pageSize) hge
    omega

/-- One chunk's bits land in the bitmap where its pages are looked up. -/
theorem FoundBelow.chunk {stop off : Nat} {bits : List UInt8}
    {c : DirtyChunk} (hP : FoundBelow P P₀ gpa stop c.gpa bitmap)
    (hal : gpa % pageSize = 0) (hg : c.gpa = gpa + off * (8 * pageSize))
    (hc : c.bitOff = off) (hclen : c.len % pageSize = 0)
    (hstop : c.gpa + c.len ≤ stop)
    (hbits : bits.length = (c.len / pageSize + 7) / 8)
    (hoff : off ≤ bitmap.length) :
    FoundBelow (fun p => P p ∨ (chunkCovers c p ∧
        bitSet bits (p - c.gpa / pageSize) = true)) P₀ gpa stop
      (c.gpa + c.len) (splice bitmap c bits) := by
  have hdiv : c.gpa / pageSize = gpa / pageSize + off * 8 := by
    unfold pageSize at hal hg ⊢
    omega
  have hend : (c.gpa + c.len) / pageSize = c.gpa / pageSize + c.len / pageSize := by
    unfold pageSize at hal hg hclen ⊢
    omega
  intro p hp
  rcases hp with hp | ⟨hcov, hbit⟩
  · rcases hP p hp with h | ⟨h1, h2, h3⟩
    · exact .inl h
    · have hmono : c.gpa / pageSize ≤ (c.gpa + c.len) / pageSize :=
        Nat.div_le_div_right (Nat.le_add_right _ _)
      have hlow := h1.1
      refine .inr ⟨h1, by omega, ?_⟩
      rw [splice_low (by omega) (by omega)]
      exact h3
  · obtain ⟨hlo, hhi⟩ := hcov
    refine .inr ⟨⟨by omega, ?_⟩, by omega, ?_⟩
    · unfold pageSize at hal hg hclen hhi ⊢
      omega
    · have hidx : p - gpa / pageSize = c.bitOff * 8 + (p - c.gpa / pageSize) := by omega
      rw [hidx, splice_here (by omega) (by omega)]
      exact hbit

theorem keeps_trackChunks {stop fuel g off : Nat}
    (hal : gpa % pageSize = 0) (hstop : stop % pageSize = 0)
    (hg : g = gpa + off * (8 * pageSize) ∨ stop ≤ g)
    (hlen : ((stop - gpa) / pageSize + 7) / 8 ≤ bitmap.length)
    (hfuel : (stop - g + dirtyChunk - 1) / dirtyChunk ≤ fuel)
    (hP : FoundBelow P P₀ gpa stop g bitmap) :
    (ramRules out R).Keeps (trackChunks sourceIo (chunksFrom fuel g stop off) bitmap).run
      (OrErr fun l bm => Tracked leg paused P₀ C gpa stop g l bm)
      (between leg paused P C) := by
  induction fuel generalizing g off bitmap P C with
  | zero =>
    refine tracked_done hP ?_
    unfold dirtyChunk pageSize at hfuel
    omega
  | succ fuel ih =>
    unfold chunksFrom
    split
    next hlt =>
      have hg : g = gpa + off * (8 * pageSize) := by
        rcases hg with h | h
        · exact h
        · omega
      have hclen : (min dirtyChunk (stop - g)) % pageSize = 0 := by
        unfold dirtyChunk pageSize at *
        omega
      have hoff : off + (min dirtyChunk (stop - g) / pageSize + 7) / 8 ≤ bitmap.length := by
        unfold dirtyChunk pageSize at *
        omega
      refine andThen ⟨⟨rfl, rfl⟩, fun r hcan => ?_⟩
      cases r with
      | error e => exact ⟨_, rfl⟩
      | ok bits =>
        have hbits : bits.length = (min dirtyChunk (stop - g) / pageSize + 7) / 8 := hcan
        have hfound := FoundBelow.chunk (c := ⟨g, min dirtyChunk (stop - g), off,
            (min dirtyChunk (stop - g) / pageSize + 7) / 8⟩)
          hP hal hg rfl hclen (by dsimp only; omega) hbits (by omega)
        have hrest := @ih (fun p => P p ∨ _)
          (fun p => C p ∨ chunkCovers ⟨g, min dirtyChunk (stop - g), off,
            (min dirtyChunk (stop - g) / pageSize + 7) / 8⟩ p) _
          (g + min dirtyChunk (stop - g))
          (off + dirtyChunk / pageSize / 8) ?_ ?_ ?_ hfound
        · refine keeps_okMono hrest ?_
          rintro l bm ⟨P', C', hl, hP', hC', hclean⟩
          refine ⟨P', C', hl, hP', fun p hp => hC' p (.inl hp), ?_⟩
          intro p h1 h2
          -- the page is in this chunk, or in a later one
          by_cases hp : p < (g + min dirtyChunk (stop - g)) / pageSize
          · refine hC' p (.inr ⟨h1, ?_⟩)
            dsimp only
            unfold dirtyChunk pageSize at *
            omega
          · exact hclean p (by omega) h2
        · unfold dirtyChunk pageSize at *
          omega
        · rw [length_splice hbits hoff]
          exact hlen
        · unfold dirtyChunk pageSize at *
          omega
    next hlt => exact tracked_done hP (by omega)

theorem dirtyChunks_ok {len n : Nat} {cs : List DirtyChunk} (h : dirtyChunks gpa len n = .ok cs) :
    (gpa % pageSize = 0 ∧ len % pageSize = 0 ∧ gpa + len < 2 ^ 64) ∧
    (len / pageSize + 7) / 8 ≤ n ∧
    cs = chunksFrom ((len + dirtyChunk - 1) / dirtyChunk) gpa (gpa + len) 0 := by
  unfold dirtyChunks at h
  split at h
  · cases h
  next hal =>
    have hal : gpa % pageSize = 0 ∧ len % pageSize = 0 :=
      Classical.not_not.mp hal
    split at h
    · cases h
    next stop hadd =>
      obtain ⟨rfl, hlt⟩ := checkedAdd_some hadd
      dsimp only at h
      split at h
      · cases h
      next hn =>
        cases h
        exact ⟨⟨hal.1, hal.2, hlt⟩, Nat.not_lt.mp hn, rfl⟩

theorem keeps_trackDirtyPages {len n : Nat} :
    (ramRules out R).Keeps (trackDirtyPages sourceIo gpa len n) (OrErr fun l bm =>
        (gpa % pageSize = 0 ∧ len % pageSize = 0 ∧ gpa + len < 2 ^ 64) ∧
        Tracked leg paused P C gpa (gpa + len) gpa l bm)
      (between leg paused P C) := by
  refine ofExcept (fun _ _ => ⟨_, rfl⟩) fun cs hcs => ?_
  obtain ⟨hok, hn, rfl⟩ := dirtyChunks_ok hcs
  refine keeps_okMono (keeps_trackChunks hok.1 ?_ (.inl ?_) ?_ ?_
    fun p hp => .inl hp) fun l bm h => ⟨hok, h⟩
  · unfold pageSize at hok ⊢
    omega
  · rw [Nat.zero_mul, Nat.add_zero]
  · rw [Nat.add_sub_cancel_left, List.length_replicate]
    exact hn
  · rw [Nat.add_sub_cancel_left]

/-- A page of an aligned region, from an address in it. -/
theorem page_of_addr {len a : Nat} (hg : gpa % pageSize = 0)
    (hl : len % pageSize = 0) (h1 : gpa ≤ a) (h2 : a < gpa + len) :
    pageIn gpa len (a / pageSize) := by
  unfold pageIn
  unfold pageSize at *
  omega

theorem inRam_cons {r : Nat × Nat × RegionKind}
    {rs : List (Nat × Nat × RegionKind)} {a : Nat} (h : InRam (r :: rs) a) :
    (r.2.2 = .ram ∧ r.1 ≤ a ∧ a < r.1 + r.2.1) ∨ InRam rs a := by
  obtain ⟨q, hq, hr⟩ := h
  rcases List.mem_cons.mp hq with rfl | hq
  · exact .inl hr
  · exact .inr ⟨q, hq, hr⟩

section pages

variable (hout : Faithful out) (hleg : leg ≠ .past)
include hout hleg

theorem keeps_sendPages {base n : Nat} {gpas : List Nat}
    {pages : List (List UInt8)} {fetch : Option (List Nat)}
    (hlen : pages.length = gpas.length)
    (hpages : ∀ p ∈ pages, p.length = pageSize)
    (hplaced : Placed base gpas fetch) (hb : base < 2 ^ 64)
    (hc : pageBufferLen gpas.length = .ok n) :
    (ramRules out R).Keeps (chanSend out sourceIo.sendFrame (.pageBatch base gpas.length
        (compress out pages.flatten).2 (compress out pages.flatten).1)).run
      (OrErr fun l _ => SendsPages leg paused P C gpas l)
      (.src ⟨.live, leg, paused, P, C, gpas.zip pages, fetch⟩) := by
  have hdec := @decode_pageBatch out base gpas.length
    (compress out pages.flatten).2 n (compress out pages.flatten).1 hb hc
    (compress_flags _)
  refine keeps_sendLive rfl hdec ?_ (fun _ => ⟨_, rfl⟩) ?_
  · exact ⟨hleg, fun m m' happ =>
      (applied_batch hout hlen hpages hplaced happ).1⟩
  · refine ⟨_, rfl, fun p hp => ⟨hp.1, fun gpa hgpa => ?_⟩⟩
    obtain ⟨e, he, rfl⟩ := mem_zip_fst hlen hgpa
    exact hp.2 e he

theorem keeps_sendBatch {base count : Nat} (hal : base % pageSize = 0) :
    (ramRules out R).Keeps (sendBatch out sourceIo base count).run
      (OrErr fun l _ => SendsPages leg paused P C
        ((List.range count).map fun i => base + i * pageSize) l)
      (between leg paused P C) := by
  refine ofExcept (fun _ _ => ⟨_, rfl⟩) fun n hn => ?_
  refine ofExcept (fun _ _ => ⟨_, rfl⟩) fun gpas hgpas => ?_
  obtain ⟨rfl, hb⟩ := buildContiguousGpas_ok hgpas
  have hcount : ((List.range count).map fun i => base + i * pageSize).length = count := by simp
  refine (keeps_readPages ?_).tryThen (fun _ _ h => h) ?_
  · intro gpa hgpa
    obtain ⟨i, -, rfl⟩ := List.mem_map.mp hgpa
    unfold pageSize at hal ⊢
    omega
  rintro l buf ⟨pages, rfl, hlen, hpages, rfl⟩
  refine ofExcept (fun _ _ => ⟨_, rfl⟩) fun m hm => ?_
  obtain rfl := pageCountU32_ok hm
  have hsend := @keeps_sendPages out R leg paused P C hout hleg base n _ pages
    none hlen hpages ?_ hb ?_
  · rw [hcount] at hsend
    exact hsend
  · show _ = _
    rw [hcount]
  · rw [hcount]
    exact hn

theorem keeps_sendBatchSparse {gpas : List Nat}
    (hgpas : ∀ gpa ∈ gpas, gpa % pageSize = 0 ∧ gpa < 2 ^ 64) :
    (ramRules out R).Keeps (sendBatchSparse out sourceIo gpas).run
      (OrErr fun l _ => SendsPages leg paused P C gpas l)
      (between leg paused P C) := by
  unfold sendBatchSparse
  cases gpas with
  | nil => exact ⟨P, rfl, fun p hp => ⟨hp, nofun⟩⟩
  | cons base rest =>
    obtain ⟨hal, hb⟩ := hgpas base List.mem_cons_self
    dsimp only
    split
    next hcont =>
      have hsend := @keeps_sendBatch out R leg paused P C hout hleg base (base :: rest).length hal
      rw [List.length_cons, ← areContiguous_eq hcont] at hsend
      exact hsend
    · refine ofExcept (fun _ _ => ⟨_, rfl⟩) fun n hn => ?_
      refine (keeps_readPages fun g hg => (hgpas g hg).1).tryThen (fun _ _ h => h) ?_
      rintro l buf ⟨pages, rfl, hlen, hpages, rfl⟩
      -- the page list goes ahead of the batch
      have hdec := decode_memFetch hout ((base :: rest).map (BitVec.ofNat 64))
        (n := n) (by rwa [List.length_map])
      refine andThen (keeps_sendLive rfl hdec ⟨hleg, rfl⟩ (fun _ => ⟨_, rfl⟩) ?_)
      refine ofExcept (fun _ _ => ⟨_, rfl⟩) fun m hm => ?_
      obtain rfl := pageCountU32_ok hm
      refine keeps_sendPages hout hleg hlen hpages ?_ hb hn
      exact map_toNat_ofNat fun g hg => (hgpas g hg).2

-- ==== one region

theorem keeps_pushAllFrom {gpa numPages fuel off : Nat}
    (hal : gpa % pageSize = 0) (hfuel : numPages - off ≤ fuel) :
    (ramRules out R).Keeps (pushAllFrom out sourceIo gpa numPages fuel off).run
      (OrErr fun l _ => ∃ P', l = between leg paused P' C ∧
        ∀ p, P' p → P p ∧ ∀ i, off ≤ i → i < numPages → gpa / pageSize + i ≠ p)
      (between leg paused P C) := by
  induction fuel generalizing off P with
  | zero =>
    refine ⟨P, rfl, fun p hp => ⟨hp, fun i h1 h2 => ?_⟩⟩
    omega
  | succ fuel ih =>
    unfold pushAllFrom
    split
    next hoff =>
      have hbase : (gpa + off * pageSize) % pageSize = 0 := by
        unfold pageSize at hal ⊢
        omega
      refine (keeps_sendBatch hout hleg hbase).tryThen (fun _ _ h => h) ?_
      rintro l _ ⟨P₁, rfl, hP₁⟩
      have hbatch : 0 < batchSize := by decide
      refine keeps_okMono (@ih P₁ _ (by omega)) ?_
      rintro l _ ⟨P', hl, hP'⟩
      refine ⟨P', hl, fun p hp => ?_⟩
      obtain ⟨hp₁, hrest⟩ := hP' p hp
      obtain ⟨hp₀, hsent⟩ := hP₁ p hp₁
      refine ⟨hp₀, fun i h1 h2 => ?_⟩
      -- page `i` is in this batch, or in a later one
      by_cases hi : i < off + min batchSize (numPages - off)
      · have hmem : gpa + off * pageSize + (i - off) * pageSize ∈
            (List.range (min batchSize (numPages - off))).map
              fun i => gpa + off * pageSize + i * pageSize :=
          List.mem_map.mpr ⟨i - off, List.mem_range.mpr (by omega), rfl⟩
        have hne := hsent _ hmem
        intro heq
        refine hne ?_
        rw [← heq]
        unfold pageSize at hal ⊢
        omega
      · exact hrest i (by omega) h2
    next hoff =>
      refine ⟨P, rfl, fun p hp => ⟨hp, fun i h1 h2 => ?_⟩⟩
      omega

/-- The full pass over one region leaves none of it to be sent. -/
theorem keeps_pushAllRegion {gpa len : Nat} {kind : RegionKind} :
    (ramRules out R).Keeps (pushAllRegion out sourceIo gpa len kind).run
      (OrErr fun l _ => ∃ P' C', l = between leg paused P' C' ∧
        (∀ p, P' p → P p) ∧ (kind = .ram → ∀ a, gpa ≤ a → a < gpa + len → ¬ P' (a / pageSize)))
      (between leg paused P C) := by
  unfold pushAllRegion
  split
  next hk => exact ⟨P, C, rfl, fun _ h => h, fun h => absurd h hk⟩
  · refine andThen (keeps_attempt (keeps_trackDirtyPages.mono ?_))
    intro l r hr
    cases r with
    | error e => exact hr
    | ok bm =>
      obtain ⟨⟨hg, hl, -⟩, P₁, C₁, rfl, hP₁, -, -⟩ := hr
      refine keeps_okMono (keeps_pushAllFrom hout hleg hg (Nat.sub_le _ _)) ?_
      rintro l _ ⟨P', rfl, hP'⟩
      -- no page of the region is left
      have hnone : ∀ p, pageIn gpa len p → ¬ P' p := by
        intro p hin hp
        refine (hP' p hp).2 (p - gpa / pageSize) (Nat.zero_le _) ?_ ?_
        · exact Nat.sub_lt_left_of_lt_add hin.1 hin.2
        · exact Nat.add_sub_cancel' hin.1
      refine ⟨P', C₁, rfl, fun p hp => ?_, fun _ a h1 h2 => ?_⟩
      · rcases hP₁ p (hP' p hp).1 with h | ⟨hin, -⟩
        · exact h
        · rw [Nat.add_sub_cancel_left] at hin
          exact absurd hp (hnone p hin)
      · exact hnone _ (page_of_addr hg hl h1 h2)

theorem keeps_sendBatches {bs : List (List Nat)}
    (hbs : ∀ gpa ∈ bs.flatten, gpa % pageSize = 0 ∧ gpa < 2 ^ 64) :
    (ramRules out R).Keeps (bs.forM fun b => sendBatchSparse out sourceIo b).run
      (OrErr fun l _ => SendsPages leg paused P C bs.flatten l)
      (between leg paused P C) := by
  induction bs generalizing P with
  | nil => exact ⟨P, rfl, fun p hp => ⟨hp, nofun⟩⟩
  | cons b bs ih =>
    rw [List.flatten_cons] at hbs
    refine (keeps_sendBatchSparse hout hleg fun g hg =>
      hbs g (List.mem_append_left _ hg)).tryThen (fun _ _ h => h) ?_
    rintro l _ ⟨P₁, rfl, hP₁⟩
    refine keeps_okMono (@ih P₁ fun g hg => hbs g (List.mem_append_right _ hg)) ?_
    rintro l _ ⟨P', hl, hP'⟩
    refine ⟨P', hl, fun p hp => ?_⟩
    obtain ⟨hp₁, hrest⟩ := hP' p hp
    obtain ⟨hp₀, hb⟩ := hP₁ p hp₁
    refine ⟨hp₀, ?_⟩
    rw [List.flatten_cons]
    exact List.forall_mem_append.mpr ⟨hb, hrest⟩

/-- A dirty pass over one region leaves no more to be sent than there was,
and reads every dirty bit of it. -/
theorem keeps_pushRegion {gpa len : Nat} {kind : RegionKind} :
    (ramRules out R).Keeps (pushRegion out sourceIo gpa len kind).run
      (OrErr fun l _ => ∃ P' C', l = between leg paused P' C' ∧
        (∀ p, P' p → P p) ∧ (∀ p, C p → C' p) ∧
        (kind = .ram → ∀ a, gpa ≤ a → a < gpa + len → C' (a / pageSize)))
      (between leg paused P C) := by
  unfold pushRegion
  split
  next hk =>
    exact ⟨P, C, rfl, fun _ h => h, fun _ h => h, fun h => absurd h hk⟩
  · refine andThen (keeps_attempt (keeps_trackDirtyPages.mono ?_))
    intro l r hr
    cases r with
    | error e => exact hr
    | ok bm =>
      obtain ⟨⟨hg, hl, hlt⟩, P₁, C₁, rfl, hP₁, hC₁, hclean⟩ := hr
      have hflat : (cutBatches [] (PageIter.new bm gpa len).pages).flatten
          = (PageIter.new bm gpa len).pages := flatten_cutBatches _ _
      refine (keeps_sendBatches hout hleg ?_).tryThen (fun _ _ h => h) ?_
      · intro g hgm
        rw [hflat] at hgm
        obtain ⟨i, hi, -, rfl⟩ := PageIter.mem_pages.mp hgm
        unfold pageSize at *
        omega
      rintro l _ ⟨P', rfl, hP'⟩
      refine ⟨P', C₁, rfl, fun p hp => ?_, hC₁, fun _ a h1 h2 => ?_⟩
      · obtain ⟨hp₁, hsent⟩ := hP' p hp
        rcases hP₁ p hp₁ with h | ⟨hin, hbit⟩
        · exact h
        · -- a page the bitmap names has been sent
          rw [Nat.add_sub_cancel_left] at hin
          rw [hflat] at hsent
          have hmem : gpa + (p - gpa / pageSize) * pageSize ∈ (PageIter.new bm gpa len).pages := by
            refine PageIter.mem_pages.mpr ⟨_, ?_, hbit, rfl⟩
            exact Nat.sub_lt_left_of_lt_add hin.1 hin.2
          refine absurd ?_ (hsent _ hmem)
          obtain ⟨hlo, -⟩ := hin
          unfold pageSize at hg hlo ⊢
          omega
      · have hin := page_of_addr hg hl h1 h2
        refine hclean _ hin.1 ?_
        unfold pageSize at hg hl hin ⊢
        omega

-- ==== whole passes

theorem keeps_pushAllRegions (rs : List (Nat × Nat × RegionKind)) : (ramRules out R).Keeps
      (rs.forM fun (gpa, len, kind) =>
        pushAllRegion out sourceIo gpa len kind).run
      (OrErr fun l _ => ∃ P' C', l = between leg paused P' C' ∧
        (∀ p, P' p → P p) ∧ ∀ a, InRam rs a → ¬ P' (a / pageSize))
      (between leg paused P C) := by
  induction rs generalizing P C with
  | nil => exact ⟨P, C, rfl, fun _ h => h, fun a ⟨_, h, _⟩ => (nomatch h)⟩
  | cons r rs ih =>
    refine (keeps_pushAllRegion hout hleg).tryThen (fun _ _ h => h) ?_
    rintro l _ ⟨P₁, C₁, rfl, hP₁, hr⟩
    refine keeps_okMono (@ih P₁ C₁) ?_
    rintro l _ ⟨P', C', hl, hP', hram⟩
    refine ⟨P', C', hl, fun p hp => hP₁ p (hP' p hp), fun a ha hp => ?_⟩
    rcases inRam_cons ha with ⟨hk, h1, h2⟩ | hrest
    · exact hr hk a h1 h2 (hP' _ hp)
    · exact hram a hrest hp

theorem keeps_pushRegions (rs : List (Nat × Nat × RegionKind)) (total : Nat) :
    (ramRules out R).Keeps (pushRegions out sourceIo rs total).run
      (OrErr fun l _ => ∃ P' C', l = between leg paused P' C' ∧
        (∀ p, P' p → P p) ∧ (∀ p, C p → C' p) ∧
        ∀ a, InRam rs a → C' (a / pageSize))
      (between leg paused P C) := by
  induction rs generalizing P C total with
  | nil =>
    exact ⟨P, C, rfl, fun _ h => h, fun _ h => h, fun a ⟨_, h, _⟩ => (nomatch h)⟩
  | cons r rs ih =>
    refine (keeps_pushRegion hout hleg).tryThen (fun _ _ h => h) ?_
    rintro l n ⟨P₁, C₁, rfl, hP₁, hC₁, hr⟩
    refine keeps_okMono (@ih P₁ C₁ (total + n)) ?_
    rintro l _ ⟨P', C', hl, hP', hC', hram⟩
    refine ⟨P', C', hl, fun p hp => hP₁ p (hP' p hp), fun p hp => hC' p (hC₁ p hp), fun a ha => ?_⟩
    rcases inRam_cons ha with ⟨hk, h1, h2⟩ | hrest
    · exact hC' _ (hr hk a h1 h2)
    · exact hram a hrest

end pages

/-- Past the last pass. -/
def Sealed (l : Party) : Prop := ∃ s, l = .src s ∧ s.stage = .sealed

/-- After a pass: ready for the next one, or past the last. -/
def PassDone (paused : Bool) (P C : Nat → Prop) (l : Party) : Leg → Prop
  | .before => l = between .before paused P C
  | _ => Sealed l

theorem keeps_expectMemDone {s : Src} (hs : s.stage = .wait) :
    (ramRules out R).Keeps (chanExpectMemDone out sourceIo.recvFrame).run (OrErr fun l _ => l = .src
        { s with stage := if s.leg = .past then .sealed else .live })
      (.src s) := by
  refine andThen (keeps_chanRecv ⟨.inr (.inl hs), fun r _ => ?_⟩)
  cases r with
  | error e => exact ⟨_, rfl⟩
  | ok f =>
    rw [keeps_ret]
    dsimp only
    cases hmsg : decode out f with
    | error e => exact ⟨_, rfl⟩
    | ok msg =>
      cases msg with
      | memDone =>
        show Party.src (s.received out f) = _
        unfold Src.received
        rw [hs, hmsg]
      | _ => exact ⟨_, rfl⟩

theorem keeps_endPass (hleg : leg ≠ .past) (hP : ∀ a, InRam R a → ¬ P (a / pageSize))
    (hlast : leg = .last → paused = true ∧ ∀ a, InRam R a → C (a / pageSize)) :
    (ramRules out R).Keeps (endPass out sourceIo).run (OrErr fun l _ => PassDone paused P C l leg)
      (between leg paused P C) := by
  refine andThen (keeps_sendLive rfl (decode_encode .memEnd)
    ⟨hleg, hP, hlast⟩ (fun _ => ⟨_, rfl⟩) ?_)
  refine keeps_okMono (keeps_expectMemDone rfl) ?_
  rintro l _ rfl
  cases leg with
  | before => rfl
  | last => exact ⟨_, rfl, rfl⟩
  | past => exact absurd rfl hleg

theorem keeps_regions {Q : Party → Except MigrateError _ → Prop} {s : Src}
    (h : Q (.src s) (.ok R)) :
    (ramRules out R).Keeps (ExceptT.lift sourceIo.regions).run Q (.src s) := by
  refine Keeps.lift ⟨trivial, fun a ha => ?_⟩
  obtain rfl : a = R := ha
  exact h

theorem keeps_pushRamAll (hout : Faithful out) :
    (ramRules out R).Keeps (pushRamAll out sourceIo).run
      (OrErr fun l _ => ∃ P' C', l = between .before paused P' C' ∧
        ∀ a, InRam R a → ¬ P' (a / pageSize))
      (between .before paused P C) := by
  have hleg : Leg.before ≠ .past := nofun
  refine andThen (keeps_regions ?_)
  rw [try_ok]
  refine (keeps_pushAllRegions hout hleg R).tryThen (fun _ _ h => h) ?_
  rintro l _ ⟨P', C', rfl, -, hram⟩
  exact keeps_okMono (keeps_endPass hleg hram nofun) fun _ _ hl => ⟨P', C', hl, hram⟩

theorem keeps_pushRam (hout : Faithful out) (hleg : leg ≠ .past)
    (hpaused : leg = .last → paused = true)
    (hP : ∀ a, InRam R a → ¬ P (a / pageSize)) :
    (ramRules out R).Keeps (pushRam out sourceIo).run
      (OrErr fun l _ => ∃ P' C', PassDone paused P' C' l leg ∧ ∀ a, InRam R a → ¬ P' (a / pageSize))
      (between leg paused P C) := by
  refine andThen (keeps_regions ?_)
  rw [try_ok]
  refine (keeps_pushRegions hout hleg R 0).tryThen (fun _ _ h => h) ?_
  rintro l total ⟨P', C', rfl, hsub, -, hclean⟩
  have hnone : ∀ a, InRam R a → ¬ P' (a / pageSize) :=
    fun a ha hp => hP a ha (hsub _ hp)
  refine (keeps_endPass hleg hnone fun hl => ⟨hpaused hl, hclean⟩).tryThen (fun _ _ h => h) ?_
  intro l _ hl
  exact ⟨P', C', hl, hnone⟩

theorem keeps_converge (hout : Faithful out) (hP : ∀ a, InRam R a → ¬ P (a / pageSize)) (n : Nat) :
    (ramRules out R).Keeps (converge out sourceIo n).run
      (OrErr fun l _ => ∃ P' C', l = between .before paused P' C' ∧
        ∀ a, InRam R a → ¬ P' (a / pageSize))
      (between .before paused P C) := by
  induction n generalizing P C with
  | zero => exact ⟨P, C, rfl, hP⟩
  | succ n ih =>
    have hleg : Leg.before ≠ .past := nofun
    refine (keeps_pushRam hout hleg nofun hP).tryThen (fun _ _ h => h) ?_
    rintro l dirty ⟨P', C', hl, hP'⟩
    obtain rfl : l = between .before paused P' C' := hl
    split
    · exact ⟨P', C', rfl, hP'⟩
    · exact ih hP'

end Rshyve.Migrate.Session
