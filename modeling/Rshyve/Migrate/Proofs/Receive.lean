/-
# Receiving guest memory

A batch is applied whole or not at all, and a pass is a sequence of batches,
each with the addresses announced for it, up to the message that ends the
pass.

The first half is about one call of `apply_page_batch`. The checks that look
at memory are made for every page before the first page is written, and a
write makes the same lookup as its check, so no write can fail half way
(`writeLoop_eq`). The second half is about `receive_pass`, run against any
list of frames.
-/
import Rshyve.Migrate.Site
import Rshyve.Migrate.Proofs.Pages

namespace Rshyve.Migrate

open Conc Proc
open Mem (pageSize GuestMem AddressSpace SubMapping Region RegionKind checkedAdd checkedAdd_some
  bind_eq_ok poke)

variable {regions : List Region} {stop : Nat}
variable {s : AddressSpace} {gpa : Nat}

-- ==== lookups

/-- The region that is found is in the list and starts no later. -/
theorem regionAt_spec {r : Region} (h : AddressSpace.regionAt regions gpa = some r) :
    r ∈ regions ∧ r.gpa ≤ gpa := by
  unfold AddressSpace.regionAt at h
  split at h
  next i hi =>
    refine ⟨List.mem_of_getElem? h, ?_⟩
    have hplace := Search.search_ok hi
    rw [h, Option.map_some, Option.some_inj] at hplace
    unfold AddressSpace.place at hplace
    split at hplace
    · cases hplace
    · omega
  · cases h

/-- On a map that is laid out no lookup panics. -/
theorem lookupOrPanic_eq (hs : Laid s) (gpa len : Nat) :
    lookupOrPanic s gpa len = some (s.lookup gpa len) := by
  unfold lookupOrPanic AddressSpace.lookup
  cases hstop : checkedAdd gpa len with
  | none => rfl
  | some stop =>
    have hends : (s.regions.any fun r => 2 ^ 64 ≤ r.stop) = false := by
      rw [List.any_eq_false]
      intro r hr
      have := (hs r hr).1
      simp only [decide_eq_true_eq]
      omega
    simp only [hends, Bool.false_eq_true, if_false]
    cases hregion : AddressSpace.regionAt s.regions gpa with
    | none => rfl
    | some region =>
      obtain ⟨hmem, hat⟩ := regionAt_spec hregion
      obtain ⟨-, hrun, hlow⟩ := hs region hmem
      simp only [if_neg (Nat.not_le.mpr hrun), if_neg (Nat.not_lt.mpr (hlow.trans hat))]
      by_cases hpast : stop > region.tracked.stop
      · simp only [if_pos hpast]
        exact congrArg some (if_pos hpast).symm
      · simp only [if_neg hpast]
        refine congrArg some (Eq.trans ?_ (if_neg hpast).symm)
        generalize (SubMapping.new region.tracked.mapping).subregion
          (gpa - region.tracked.gpa) len = sub
        cases sub <;> rfl

variable {out : Outside}

-- ==== a batch, all or none

/-- A page the preflight has passed. -/
def Writable (s : AddressSpace) (gpa : Nat) : Prop :=
  ∃ v, s.lookup gpa pageSize = some v ∧ v.prot.write = true

variable {m : GuestMem} {f : Except MigrateError (List UInt8)}
  {rest : List (Except MigrateError (List UInt8))} {sparse : Option (List Nat)}

theorem preflightLoop_eq (hs : Laid m.space) (gpas : List Nat) :
    preflightLoop m.space gpas = some (preflight m gpas) := by
  induction gpas with
  | nil => rfl
  | cons gpa gpas ih =>
    unfold preflightLoop preflight
    rw [lookupOrPanic_eq hs, Option.bind_some, List.forM]
    cases m.space.lookup gpa pageSize with
    | none => rfl
    | some v =>
      dsimp only
      cases GuestMem.checkWrite v 0 with
      | error e => rfl
      | ok u => exact ih

theorem writable_of_preflight {gpas : List Nat} (h : preflight m gpas = .ok ()) :
    ∀ gpa ∈ gpas, Writable m.space gpa := by
  induction gpas with
  | nil => exact nofun
  | cons gpa gpas ih =>
    unfold preflight at h
    rw [List.forM] at h
    obtain ⟨_, hfirst, hrest⟩ := bind_eq_ok.mp h
    have hgpa : Writable m.space gpa := by
      cases hv : m.space.lookup gpa pageSize with
      | none =>
        rw [hv] at hfirst
        cases hfirst
      | some v =>
        refine ⟨v, hv, ?_⟩
        rw [hv] at hfirst
        dsimp only at hfirst
        by_contra hro
        rw [GuestMem.checkWrite, if_pos hro] at hfirst
        cases hfirst
    intro g hg
    rcases List.mem_cons.mp hg with rfl | hg
    · exact hgpa
    · exact ih hrest g hg

/-- A page that may be written and is one page long is written. -/
theorem checkWrite_page {v : SubMapping}
    (hv : s.lookup gpa pageSize = some v) (hw : v.prot.write = true) :
    GuestMem.checkWrite v pageSize = .ok () := by
  have hlen := Mem.lookup_len hv
  rw [GuestMem.checkWrite, if_neg (fun h => h hw), if_neg (by omega)]

variable {pages : List (Nat × List UInt8)}

/-- Once every page has passed, the loop writes them all. -/
theorem writeLoop_eq (hs : Laid m.space)
    (hp : ∀ e ∈ pages, e.2.length = pageSize ∧ Writable m.space e.1) :
    writeLoop pages m = some (.ok (), { m with bytes := pokeAll m.bytes pages }) ∧
    writePages m pages = .ok { m with bytes := pokeAll m.bytes pages } := by
  induction pages generalizing m with
  | nil => exact ⟨rfl, rfl⟩
  | cons e pages ih =>
    obtain ⟨gpa, page⟩ := e
    obtain ⟨hlen, v, hv, hw⟩ := hp _ List.mem_cons_self
    have hcheck := checkWrite_page hv hw
    obtain ⟨hloop, hpages⟩ :=
      ih (m := { m with bytes := poke m.bytes gpa page }) hs
        fun e he => hp e (List.mem_cons_of_mem _ he)
    constructor
    · unfold writeLoop
      rw [lookupOrPanic_eq hs, hlen, hv, Option.bind_some]
      simp only [hcheck]
      exact hloop
    · have hwrite : m.write gpa page = .ok { m with bytes := poke m.bytes gpa page } := by
        unfold GuestMem.write
        rw [hlen, hv]
        simp only [hcheck]
        rfl
      unfold writePages
      rw [List.foldlM_cons]
      simp only [hwrite]
      exact hpages

theorem length_of_mem_pageChunks {raw page : List UInt8}
    (h : page ∈ pageChunks raw) : page.length = pageSize := by
  obtain ⟨i, hi, rfl⟩ := List.mem_map.mp h
  have hi : (i + 1) * pageSize ≤ raw.length :=
    (Nat.le_div_iff_mul_le (by decide)).mp (List.mem_range.mp hi)
  rw [Nat.succ_mul] at hi
  rw [List.length_take, List.length_drop]
  omega

theorem applyPageBatch_eq (m : GuestMem) (base count flags : Nat)
    (data : List UInt8) (sparse : Option (List Nat)) :
    applyPageBatch out m base count flags data sparse =
      openBatch out base count flags data sparse >>= fun x =>
        preflight m x.2 >>= fun _ => writePages m (x.2.zip (pageChunks x.1)) := by
  unfold applyPageBatch openBatch
  cases checkBatch count flags with
  | error e => rfl
  | ok _ =>
    cases batchBytes out flags data (count * pageSize) with
    | error e => rfl
    | ok raw => cases batchGpas base count sparse <;> rfl

/-- On a map that is laid out a batch never panics, and a batch that fails
leaves the memory as it was. -/
theorem applyBatch_eq (hs : Laid m.space) (base count flags : Nat)
    (data : List UInt8) (sparse : Option (List Nat)) :
    applyBatch out m base count flags data sparse =
      some (match applyPageBatch out m base count flags data sparse with
        | .ok m' => (.ok (), m')
        | .error e => (.error e, m)) := by
  rw [applyPageBatch_eq]
  unfold applyBatch
  cases openBatch out base count flags data sparse with
  | error e => rfl
  | ok x =>
    obtain ⟨raw, gpas⟩ := x
    dsimp only
    rw [preflightLoop_eq hs, Option.bind_some]
    cases hpre : preflight m gpas with
    | error e =>
      simp only [Bind.bind, Except.bind, hpre]
    | ok _ =>
      have hp : ∀ e ∈ gpas.zip (pageChunks raw), e.2.length = pageSize ∧ Writable m.space e.1 := by
        intro e he
        obtain ⟨hgpa, hpage⟩ := List.of_mem_zip he
        exact ⟨length_of_mem_pageChunks hpage, writable_of_preflight hpre e.1 hgpa⟩
      obtain ⟨hloop, hpages⟩ := writeLoop_eq hs hp
      simp only [Bind.bind, Except.bind, hpre, hloop, hpages]

-- ==== what the batch has written

/-- An address in the page that a write goes to. -/
def Covers (a : Nat) (e : Nat × List UInt8) : Prop :=
  e.1 ≤ a ∧ a < e.1 + pageSize

/-- Every address holds the byte of the last page written over it, and what
it held where there is none. -/
def Overwritten (old new : Nat → UInt8) (pages : List (Nat × List UInt8)) : Prop :=
  ∀ a, ((∀ e ∈ pages, ¬ Covers a e) ∧ new a = old a) ∨
    ∃ before e after, pages = before ++ e :: after ∧ Covers a e ∧
      (∀ e' ∈ after, ¬ Covers a e') ∧ e.2[a - e.1]? = some (new a)

theorem poke_covers {bytes : Nat → UInt8} {e : Nat × List UInt8}
    (hlen : e.2.length = pageSize) (a : Nat) :
    (¬ Covers a e ∧ poke bytes e.1 e.2 a = bytes a) ∨
    (Covers a e ∧ e.2[a - e.1]? = some (poke bytes e.1 e.2 a)) := by
  unfold poke Covers
  by_cases hle : e.1 ≤ a
  · rw [if_pos hle]
    by_cases hlt : a < e.1 + pageSize
    · refine .inr ⟨⟨hle, hlt⟩, ?_⟩
      rw [List.getElem?_eq_getElem (by omega), Option.getD_some]
    · refine .inl ⟨fun h => hlt h.2, ?_⟩
      rw [List.getElem?_eq_none (by omega), Option.getD_none]
  · rw [if_neg hle]
    exact .inl ⟨fun h => hle h.1, rfl⟩

theorem overwritten_pokeAll {bytes : Nat → UInt8} (hp : ∀ e ∈ pages, e.2.length = pageSize) :
    Overwritten bytes (pokeAll bytes pages) pages := by
  induction pages generalizing bytes with
  | nil => exact fun a => .inl ⟨nofun, rfl⟩
  | cons e pages ih =>
    intro a
    have hrest := @ih (poke bytes e.1 e.2) (fun e' he' => hp e' (List.mem_cons_of_mem _ he')) a
    show (_ ∧ pokeAll (poke bytes e.1 e.2) pages a = bytes a) ∨ ∃ before e' after, _ ∧ _ ∧ _ ∧
        _ = some (pokeAll (poke bytes e.1 e.2) pages a)
    rcases hrest with ⟨hnone, heq⟩ | ⟨before, e', after, hsplit, hrest⟩
    · rw [heq]
      rcases @poke_covers bytes e (hp e List.mem_cons_self) a with
        ⟨hnot, hpoke⟩ | ⟨hcovers, hget⟩
      · refine .inl ⟨?_, hpoke⟩
        intro e' he'
        rcases List.mem_cons.mp he' with rfl | he'
        · exact hnot
        · exact hnone e' he'
      · exact .inr ⟨[], e, pages, rfl, hcovers, hnone, hget⟩
    · exact .inr ⟨e :: before, e', after, by rw [hsplit]; rfl, hrest⟩

-- ==== a pass

/-- A batch with the addresses announced for it. -/
structure Batch where
  base : Nat
  count : Nat
  flags : Nat
  data : List UInt8
  sparse : Option (List Nat)

/-- Apply batches one after the other. -/
def applyAll (out : Outside) (bs : List Batch) (m : GuestMem) : Except MigrateError GuestMem :=
  bs.foldlM (fun m b =>
    applyPageBatch out m b.base b.count b.flags b.data b.sparse) m

/-- A pass up to the message that ends it: batches, address lists each
followed by its batch, and, where the pass goes on after them, ends of a
round. -/
inductive Pieces («until» : PassEnd) : List Message → List Batch → Prop
  | nil : Pieces «until» [] []
  | memEnd {ms : List Message} {bs : List Batch} (h : Pieces «until» ms bs)
      (hgo : «until» = .pauseSignal) : Pieces «until» (ms ++ [.memEnd]) bs
  | batch {ms : List Message} {bs : List Batch} (h : Pieces «until» ms bs)
      (base count flags : Nat) (data : List UInt8) :
      Pieces «until» (ms ++ [.pageBatch base count flags data])
        (bs ++ [⟨base, count, flags, data, none⟩])
  | sparse {ms : List Message} {bs : List Batch} (h : Pieces «until» ms bs)
      (gpas : List (BitVec 64)) (base count flags : Nat)
      (data : List UInt8) :
      Pieces «until» (ms ++ [.memFetch gpas, .pageBatch base count flags data])
        (bs ++ [⟨base, count, flags, data, some (gpas.map BitVec.toNat)⟩])

/-- The message that ends a pass. -/
def terminator : PassEnd → Message
  | .pauseSignal => .pauseSignal
  | .memEnd => .memEnd

/-- A receive that came back with a message. -/
def Carries (out : Outside) (f : Except MigrateError (List UInt8)) (m : Message) : Prop :=
  ∃ bytes, f = .ok bytes ∧ decode out bytes = .ok m

/-- The announcement that is still without its batch. -/
def Announced (out : Outside) : Option (List Nat) → List (Except MigrateError (List UInt8)) → Prop
  | none, held => held = []
  | some gpas, held => ∃ f words, held = [f] ∧
      Carries out f (.memFetch words) ∧ gpas = words.map BitVec.toNat

/-- Where a pass begun at `s₀` stands: the frames so far are `fs`, then what
is `held`. -/
structure Underway (out : Outside) («until» : PassEnd) (s₀ : Site)
    (held : List (Except MigrateError (List UInt8))) (s : Site) : Prop where
  pieces : ∃ fs ms bs, s₀.frames = fs ++ held ++ s.frames ∧
    List.Forall₂ (Carries out) fs ms ∧ Pieces «until» ms bs ∧
    applyAll out bs s₀.mem = .ok s.mem

/-- How a pass ends: with its terminator, or with an error before it. -/
def PassEnded (out : Outside) («until» : PassEnd) (s₀ s : Site) : Except MigrateError Unit → Prop
  | .ok () => ∃ f, Carries out f (terminator «until») ∧ Underway out «until» s₀ [f] s
  | .error _ => ∃ held, held.length ≤ 2 ∧ Underway out «until» s₀ held s

namespace Underway

variable {«until» : PassEnd} {s₀ s s' : Site} {held : List (Except MigrateError (List UInt8))}

theorem start (s : Site) : Underway out «until» s [] s :=
  ⟨[], [], [], rfl, .nil, .nil, rfl⟩

variable (h : Underway out «until» s₀ held s)
include h

theorem same (hframes : s'.frames = s.frames) (hmem : s'.mem = s.mem) :
    Underway out «until» s₀ held s' := by
  obtain ⟨fs, ms, bs, hall, hrest⟩ := h.pieces
  exact ⟨fs, ms, bs, by rw [hall, hframes], by rw [hmem]; exact hrest⟩

theorem take (hf : s.frames = f :: rest) :
    Underway out «until» s₀ (held ++ [f]) { s with frames := rest } := by
  obtain ⟨fs, ms, bs, hall, hrest⟩ := h.pieces
  refine ⟨fs, ms, bs, ?_, hrest⟩
  rw [hall, hf]
  simp

theorem piece {ms' : List Message} {bs' : List Batch} (hc : List.Forall₂ (Carries out) held ms')
    (hp : ∀ ms bs, Pieces «until» ms bs → Pieces «until» (ms ++ ms') (bs ++
      bs')) (hframes : s'.frames = s.frames)
    (hmem : applyAll out bs' s.mem = .ok s'.mem) :
    Underway out «until» s₀ [] s' := by
  obtain ⟨fs, ms, bs, hall, hfs, hms, hbs⟩ := h.pieces
  refine ⟨fs ++ held, ms ++ ms', bs ++ bs', ?_, ?_, hp ms bs hms, ?_⟩
  · rw [hall, hframes, List.append_nil]
  · exact List.rel_append hfs hc
  · unfold applyAll at hbs hmem ⊢
    rw [List.foldlM_append, hbs]
    exact hmem

theorem round (hgo : «until» = .pauseSignal) (hheld : held = [f])
    (hf : Carries out f .memEnd) : Underway out «until» s₀ [] s := by
  subst hheld
  refine h.piece (.cons hf .nil) (fun ms bs hp => ?_) rfl (rfl : applyAll out [] s.mem = .ok s.mem)
  rw [List.append_nil]
  exact hp.memEnd hgo

/-- The frame after what is held is a batch, and it has been applied with the
addresses announced. -/
theorem batch (hheld : Announced out sparse held) {base count flags : Nat}
    {data : List UInt8} (hf : Carries out f (.pageBatch base count flags data))
    (hframes : s.frames = f :: rest)
    (hm : applyPageBatch out s.mem base count flags data sparse = .ok m) :
    Underway out «until» s₀ [] { s with frames := rest, mem := m } := by
  have hmem : applyAll out [⟨base, count, flags, data, sparse⟩] s.mem = .ok m :=
    bind_eq_ok.mpr ⟨m, hm, rfl⟩
  cases sparse with
  | none =>
    obtain rfl : held = [] := hheld
    exact (h.take hframes).piece (.cons hf .nil)
      (fun _ _ hp => hp.batch base count flags data) rfl hmem
  | some gpas =>
    obtain ⟨g, words, rfl, hg, rfl⟩ := hheld
    exact (h.take hframes).piece (.cons hg (.cons hf .nil))
      (fun _ _ hp => hp.sparse words base count flags data) rfl hmem

end Underway

/-- The next receive, and the message in it. -/
theorem returns_chanRecv {s : Site} {Q : Site → Except MigrateError Message → Prop}
    (h : Q s.next.2 (s.next.1.bind (decode out))) :
    Returns (Site.answer out) (chanRecv out Session.destIo.recvFrame).run Q s := by
  refine returns_op ?_
  have hans : Site.answer out .recv s = s.next := rfl
  rw [hans]
  cases hf : s.next.1 with
  | error e =>
    rw [hf] at h
    exact returns_ret h
  | ok f =>
    rw [hf] at h
    exact returns_ret h

/-- An acknowledgement goes out, or is refused. -/
theorem returns_chanSend {s : Site} {m : Message} {Q : Site → Except MigrateError Unit → Prop}
    (h : ∀ r, Q (s.note (.send (encode out m))) r) :
    Returns (Site.answer out) (chanSend out Session.destIo.sendFrame m).run Q s := by
  refine returns_op ?_
  have hans : Site.answer out (.send (encode out m)) s =
      (s.replies s.made.length, s.note (.send (encode out m))) := rfl
  rw [hans]
  cases s.replies s.made.length with
  | error e => exact returns_ret (h _)
  | ok _ => exact returns_ret (h _)

/-- One round keeps the pass in order and takes a frame, or ends it. -/
theorem returns_receiveRound {«until» : PassEnd} {s₀ s : Site}
    {held : List (Except MigrateError (List UInt8))}
    (hheld : Announced out sparse held) (h : Underway out «until» s₀ held s) :
    Returns (Site.answer out) (receiveRound out Session.destIo «until» sparse) (fun s' x =>
        match x with
        | .inl sparse' =>
          (∃ held', Announced out sparse' held' ∧ Underway out «until» s₀ held' s') ∧
          s'.frames.length < s.frames.length
        | .inr r => PassEnded out «until» s₀ s' r) s := by
  have hshort : held.length ≤ 1 := by
    cases sparse with
    | none =>
      rw [show held = [] from hheld]
      exact Nat.zero_le 1
    | some gpas =>
      obtain ⟨f, words, rfl, -⟩ := hheld
      exact Nat.le_refl 1
  refine Returns.seq (returns_chanRecv ?_)
  cases hframes : s.frames with
  | nil =>
    rw [show s.next = (.error (.webSocket "connection closed"), s) by
      rw [Site.next, hframes]]
    exact returns_ret ⟨held, by omega, h⟩
  | cons f rest =>
    have hnext : s.next = (f, { s with frames := rest }) := by
      rw [Site.next, hframes]
    rw [hnext]
    have htaken := h.take hframes
    have hless : rest.length < (f :: rest).length := Nat.lt_succ_self _
    -- an error, whatever it is, leaves what has been applied
    have hfail : ∀ {s' : Site} (e : MigrateError), s'.frames = rest →
        s'.mem = s.mem → PassEnded out «until» s₀ s' (.error e) := by
      refine fun e hf hm => ⟨held ++ [f], ?_, htaken.same hf hm⟩
      simp only [List.length_append, List.length_singleton]
      omega
    cases f with
    | error e => exact returns_ret (hfail e rfl rfl)
    | ok bytes =>
      cases hmsg : decode out bytes with
      | error e =>
        simp only [Except.bind, hmsg]
        exact returns_ret (hfail e rfl rfl)
      | ok msg =>
        simp only [Except.bind, hmsg]
        have hcarry : Carries out (.ok bytes) msg := ⟨bytes, rfl, hmsg⟩
        cases msg with
        | pageBatch base count flags data =>
          refine Returns.seq (returns_call ?_)
          have hans : Site.answer out (.applyBatch base count flags data sparse)
              { s with frames := rest } =
            match applyPageBatch out s.mem base count flags data sparse with
            | .ok m => (.ok (), { s with frames := rest, mem := m })
            | .error e => (.error e, { s with frames := rest }) := rfl
          rw [hans]
          cases hm : applyPageBatch out s.mem base count flags data sparse with
          | error e => exact returns_ret (hfail e rfl rfl)
          | ok m =>
            exact returns_ret ⟨⟨[], rfl, h.batch hheld hcarry hframes hm⟩, hless⟩
        | memFetch gpas =>
          cases sparse with
          | some g => exact returns_ret (hfail _ rfl rfl)
          | none =>
            obtain rfl : held = [] := hheld
            exact returns_ret ⟨⟨_, ⟨_, _, rfl, hcarry, rfl⟩, htaken⟩, hless⟩
        | memEnd =>
          cases sparse with
          | some g => exact returns_ret (hfail _ rfl rfl)
          | none =>
            obtain rfl : held = [] := hheld
            refine Returns.seq (returns_chanSend fun r => ?_)
            cases r with
            | error e => exact returns_ret (hfail e rfl rfl)
            | ok _ =>
              have hsent : Underway out «until» s₀ [.ok bytes] ({ s with frames := rest }.note
                    (.send (encode out .memDone))) :=
                htaken.same rfl rfl
              cases «until» with
              | memEnd => exact returns_ret ⟨_, hcarry, hsent⟩
              | pauseSignal =>
                exact returns_ret ⟨⟨[], rfl, hsent.round rfl rfl hcarry⟩, hless⟩
        | pauseSignal =>
          cases sparse with
          | some g => exact returns_ret (hfail _ rfl rfl)
          | none =>
            obtain rfl : held = [] := hheld
            cases «until» with
            | memEnd => exact returns_ret (hfail _ rfl rfl)
            | pauseSignal => exact returns_ret ⟨_, hcarry, htaken⟩
        | okay => cases sparse <;> exact returns_ret (hfail _ rfl rfl)
        | error e => cases sparse <;> exact returns_ret (hfail _ rfl rfl)
        | serialized d => cases sparse <;> exact returns_ret (hfail _ rfl rfl)
        | memDone => cases sparse <;> exact returns_ret (hfail _ rfl rfl)

theorem returns_receivePass («until» : PassEnd) (s : Site) :
    Returns (Site.answer out) (receivePass out Session.destIo «until»).run
      (PassEnded out «until» s) s := by
  refine returns_loop (fun sparse s' => ∃ held, Announced out sparse held ∧
      Underway out «until» s held s')
    (fun _ s' => s'.frames.length) ⟨[], rfl, Underway.start s⟩ ?_
  rintro sparse s' ⟨held, hheld, h⟩
  refine (returns_receiveRound hheld h).mono ?_
  intro s'' x hx
  cases x with
  | inl sparse' => exact hx
  | inr r => exact hx

theorem length_of_openBatch {base count flags : Nat} {data raw : List UInt8} {gpas : List Nat}
    (h : openBatch out base count flags data sparse = .ok (raw, gpas)) :
    raw.length = count * pageSize ∧ gpas.length = count := by
  obtain ⟨_, -, h⟩ := bind_eq_ok.mp h
  obtain ⟨_, hraw, h⟩ := bind_eq_ok.mp h
  obtain ⟨_, hgpas, h⟩ := bind_eq_ok.mp h
  cases h
  constructor
  · obtain ⟨mid, -, hend⟩ := bind_eq_ok.mp hraw
    split at hend
    · cases hend
    next hlen =>
      cases hend
      omega
  · cases sparse with
    | some g =>
      simp only [batchGpas] at hgpas
      split at hgpas
      · cases hgpas
      next hlen =>
        cases hgpas
        omega
    | none => rw [(buildContiguousGpas_ok hgpas).1, List.length_map, List.length_range]

end Rshyve.Migrate
