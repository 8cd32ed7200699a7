/-
# MSI-X delivery

Over any sequence of interrupts, register writes and resets, a vector keeps
its account: every interrupt was dropped because MSI-X was off, was the same
as one already pending, was cleared by a reset, was delivered, or is pending.
Nothing that can be delivered is ever left pending, so the last case only
lasts while a mask or the enable bit stands in the way.
-/
import Rshyve.Virtio.Pci.Msix

namespace Rshyve.Virtio.Pci.MsixTable

-- ==== one vector's bit

/-- Enabled, and unmasked at both levels. -/
def deliverable (t : MsixTable) (v : Nat) : Bool :=
  t.enabled && !t.funcMasked && (t.entries[v]?).any fun e => !e.masked

/-- The pending bit of one vector cleared. -/
def unset (t : MsixTable) (v : Nat) : MsixTable :=
  t.setWord (v / 64) (t.pba.getD (v / 64) 0 &&& ~~~(1#64 <<< (v % 64)))

theorem bit_getLsbD {i j : Nat} (hj : j < 64) : (1#64 <<< i).getLsbD j = decide (j = i) := by
  rw [BitVec.getLsbD_shiftLeft, BitVec.getLsbD_one]
  by_cases h : j = i
  · subst h
    simp [hj]
  · simp only [h, decide_false]
    simp
    omega

theorem pending_unset (t : MsixTable) (v u : Nat) :
    (t.unset v).pending u = (t.pending u && decide (u ≠ v)) := by
  unfold pending unset MsixTable.setWord
  simp only [List.getD_eq_getElem?_getD, List.getElem?_set]
  by_cases hw : v / 64 = u / 64
  · rw [if_pos hw, hw]
    have hm : u % 64 < 64 := Nat.mod_lt _ (by decide)
    have huv : (u % 64 = v % 64) ↔ u = v := by omega
    split
    · rw [Option.getD_some, BitVec.getLsbD_and, BitVec.getLsbD_not, bit_getLsbD hm]
      simp [hm, huv]
    case isFalse hlen =>
      rw [List.getElem?_eq_none (by omega)]
      simp
  · rw [if_neg hw]
    have huv : u ≠ v := fun h => hw (by rw [h])
    simp [huv]

theorem deliverable_unset (t : MsixTable) (v u : Nat) :
    (t.unset v).deliverable u = t.deliverable u := rfl

theorem and_bit_eq_zero {w : BitVec 64} {i : Nat} (hi : i < 64) :
    w &&& (1#64 <<< i) = 0 ↔ w.getLsbD i = false := by
  constructor
  · intro h
    have hbit := congrArg (BitVec.getLsbD · i) h
    simpa [bit_getLsbD hi, hi] using hbit
  · intro h
    apply BitVec.eq_of_getLsbD_eq
    intro j hj
    rw [BitVec.getLsbD_and, bit_getLsbD hj]
    by_cases hji : j = i
    · rw [hji, h]
      simp
    · simp [hji]

/-- A pending vector that can be delivered gives up its bit and its message;
nothing else happens. -/
theorem takePending_eq (t : MsixTable) (v : Nat) : t.takePending v =
      if t.deliverable v && t.pending v then
        (some (t.readEntry v), t.unset v)
      else (none, t) := by
  have hm : v % 64 < 64 := Nat.mod_lt _ (by decide)
  unfold takePending deliverable pending readEntry unset
  cases t.enabled with
  | false => simp
  | true =>
    cases t.funcMasked with
    | true => simp
    | false =>
      cases t.entries[v]? with
      | none => simp
      | some e =>
        cases hmask : e.masked with
        | true => simp [hmask]
        | false =>
          rw [List.getD_eq_getElem?_getD]
          cases t.pba[v / 64]? with
          | none => simp [hmask]
          | some w =>
            simp only [Option.getD_some, and_bit_eq_zero hm]
            cases hw : w.getLsbD (v % 64) <;> simp [hmask]

-- ==== the drain

/-- `t'` is `t` with the pending bits of `vs` gone, except those that cannot
be delivered. -/
structure Drained (vs : List Nat) (t t' : MsixTable) : Prop where
  entries : t'.entries = t.entries
  enabled : t'.enabled = t.enabled
  funcMasked : t'.funcMasked = t.funcMasked
  pending : ∀ u, t'.pending u = (t.pending u && !(t.deliverable u && decide (u ∈ vs)))

variable {vs : List Nat}

variable {t t' : MsixTable}

theorem Drained.deliverable (h : Drained vs t t') : t'.deliverable = t.deliverable := by
  funext v
  unfold MsixTable.deliverable
  rw [h.enabled, h.funcMasked, h.entries]

theorem Drained.readEntry (h : Drained vs t t') : t'.readEntry = t.readEntry := by
  funext v
  unfold MsixTable.readEntry
  rw [h.entries]

theorem drainOne_eq (acc : List MsiMessage × MsixTable) (v : Nat) : (drainOne acc v).1 = acc.1 ++
        (if acc.2.deliverable v && acc.2.pending v then [acc.2.readEntry v]
        else []) ∧
      Drained [v] acc.2 (drainOne acc v).2 := by
  unfold drainOne
  rw [takePending_eq]
  split
  case isTrue h =>
    refine ⟨rfl, rfl, rfl, rfl, fun u => ?_⟩
    rw [Bool.and_eq_true] at h
    rw [pending_unset]
    by_cases huv : u = v
    · subst huv
      simp [h.1]
    · simp [huv]
  case isFalse h =>
    refine ⟨rfl, rfl, rfl, rfl, fun u => ?_⟩
    by_cases huv : u = v
    · subst huv
      cases hp : acc.2.pending u with
      | false => rfl
      | true =>
        have hd : acc.2.deliverable u = false := by
          rw [hp, Bool.and_true] at h
          exact Bool.eq_false_iff.2 h
        simp [hd]
    · simp [huv]

/-- The loop over a list of vectors takes what can be delivered of them, in
their order. -/
theorem foldl_drainOne (hnodup : vs.Nodup) (acc : List MsiMessage × MsixTable) :
    (vs.foldl drainOne acc).1 = acc.1 ++
        (vs.filter fun v => acc.2.deliverable v && acc.2.pending v).map acc.2.readEntry ∧
      Drained vs acc.2 (vs.foldl drainOne acc).2 := by
  induction vs generalizing acc with
  | nil => exact ⟨by simp, rfl, rfl, rfl, fun u => by simp⟩
  | cons v vs ih =>
    rw [List.nodup_cons] at hnodup
    obtain ⟨hmsg, hone⟩ := drainOne_eq acc v
    obtain ⟨hmsgs, hrest⟩ := ih hnodup.2 (drainOne acc v)
    -- the rest of the list reads the same bits as at the start
    have hfilter : (vs.filter fun u => (drainOne acc v).2.deliverable u
          && (drainOne acc v).2.pending u) =
        vs.filter fun u => acc.2.deliverable u && acc.2.pending u := by
      refine List.filter_congr fun u hu => ?_
      have huv : u ≠ v := fun h => hnodup.1 (h ▸ hu)
      rw [hone.deliverable, hone.pending]
      simp [huv]
    rw [List.foldl_cons]
    constructor
    · rw [hmsgs, hmsg, hfilter, hone.readEntry, List.append_assoc]
      congr 1
      rw [List.filter_cons]
      split <;> simp
    · refine ⟨hrest.entries.trans hone.entries, hrest.enabled.trans hone.enabled,
        hrest.funcMasked.trans hone.funcMasked, fun u => ?_⟩
      rw [hrest.pending, hone.pending, hone.deliverable]
      by_cases huv : u = v <;> cases acc.2.deliverable u <;> simp [huv]

/-- The vectors one word records, lowest first. -/
def scanWord (t : MsixTable) (word : Nat) : List Nat :=
  (setBits (t.pba.getD word 0)).map (word * 64 + ·)

/-- The vectors the array records, in the order `drain_pending` meets
them. -/
def scan (t : MsixTable) : List Nat :=
  (List.range t.pba.length).flatMap t.scanWord

variable {word v : Nat}

theorem mem_scanWord : v ∈ t.scanWord word ↔ v / 64 = word ∧ t.pending v = true := by
  unfold scanWord setBits pending
  rw [List.mem_map]
  constructor
  · rintro ⟨i, hi, rfl⟩
    obtain ⟨hlt, hbit⟩ := List.mem_filter.1 hi
    rw [List.mem_range] at hlt
    have hdiv : (word * 64 + i) / 64 = word := by omega
    have hmod : (word * 64 + i) % 64 = i := by omega
    rw [hdiv, hmod]
    exact ⟨rfl, hbit⟩
  · rintro ⟨rfl, hbit⟩
    refine ⟨v % 64, List.mem_filter.2 ⟨?_, hbit⟩, by omega⟩
    exact List.mem_range.2 (Nat.mod_lt _ (by decide))

theorem mem_scan : v ∈ t.scan ↔ t.pending v = true := by
  unfold scan
  rw [List.mem_flatMap]
  constructor
  · rintro ⟨word, -, hv⟩
    exact (mem_scanWord.1 hv).2
  · intro hp
    refine ⟨v / 64, List.mem_range.2 ?_, mem_scanWord.2 ⟨rfl, hp⟩⟩
    by_contra hlen
    unfold pending at hp
    rw [List.getD_eq_getElem?_getD, List.getElem?_eq_none (by omega)] at hp
    simp at hp

theorem nodup_scan (t : MsixTable) : t.scan.Nodup := by
  refine List.nodup_flatMap.2 ⟨fun word _ => ?_, ?_⟩
  · refine List.Nodup.map (fun i j h => ?_) (List.nodup_range.filter _)
    exact Nat.add_left_cancel h
  · refine List.nodup_range.imp fun hne v hv hv' => hne ?_
    exact (mem_scanWord.1 hv).1.symm.trans (mem_scanWord.1 hv').1

/-- Taking a vector leaves the other words alone. -/
theorem word_foldl_drainOne (h : ∀ v ∈ vs, v / 64 ≠ word) (acc : List MsiMessage × MsixTable) :
    (vs.foldl drainOne acc).2.pba.getD word 0 = acc.2.pba.getD word 0 := by
  induction vs generalizing acc with
  | nil => rfl
  | cons v vs ih =>
    obtain ⟨hv, hvs⟩ := List.forall_mem_cons.1 h
    rw [List.foldl_cons, ih hvs]
    unfold drainOne
    rw [takePending_eq]
    split
    · simp only [unset, setWord, List.getD_eq_getElem?_getD]
      rw [List.getElem?_set_ne hv]
    · rfl

theorem drainPending_eq (t : MsixTable) : t.drainPending = t.scan.foldl drainOne ([], t) := by
  -- over any words that still hold what they held at the start
  have hwords : ∀ (ws : List Nat) (acc : List MsiMessage × MsixTable),
      ws.Nodup → (∀ w ∈ ws, acc.2.pba.getD w 0 = t.pba.getD w 0) →
      ws.foldl (fun acc word =>
          (setBits (acc.2.pba.getD word 0)).foldl
            (fun acc bit => drainOne acc (word * 64 + bit)) acc) acc =
        (ws.flatMap t.scanWord).foldl drainOne acc := by
    intro ws
    induction ws with
    | nil => intros; rfl
    | cons w ws ih =>
      intro acc hnodup hsame
      obtain ⟨hw, hws⟩ := List.forall_mem_cons.1 hsame
      rw [List.nodup_cons] at hnodup
      have hinner : (setBits (acc.2.pba.getD w 0)).foldl
          (fun acc bit => drainOne acc (w * 64 + bit)) acc =
          (t.scanWord w).foldl drainOne acc := by
        rw [hw, scanWord, List.foldl_map]
      rw [List.foldl_cons, hinner, List.flatMap_cons, List.foldl_append]
      refine ih _ hnodup.2 fun w' hw' => ?_
      rw [word_foldl_drainOne _ acc, hws w' hw']
      intro v hv hdiv
      rw [(mem_scanWord.1 hv).1] at hdiv
      exact hnodup.1 (hdiv ▸ hw')
  exact hwords _ _ List.nodup_range fun _ _ => rfl

/-- The drain sends the messages of the pending vectors that can be
delivered, and leaves the others pending. -/
theorem drainPending_spec (t : MsixTable) :
    t.drainPending.1 = (t.scan.filter t.deliverable).map t.readEntry ∧
      Drained t.scan t t.drainPending.2 := by
  rw [drainPending_eq]
  obtain ⟨hmsgs, hdrained⟩ := foldl_drainOne t.nodup_scan ([], t)
  refine ⟨?_, hdrained⟩
  rw [hmsgs, List.nil_append]
  congr 1
  refine List.filter_congr fun v hv => ?_
  rw [mem_scan.1 hv, Bool.and_true]

-- ==== the operations

/-- What a device, its guest or a reset does to the table. -/
inductive MsixOp where
  | fire (vector : Nat)
  | tableWrite (offset : Nat) (val : BitVec 32)
  | capWrite (msgCtrl : BitVec 16)
  | clearPending
  deriving DecidableEq, Repr

/-- The messages that leave, and the table afterwards. -/
def exec (t : MsixTable) : MsixOp → List MsiMessage × MsixTable
  | .fire v => ((t.fire v).1.toList, (t.fire v).2)
  | .tableWrite offset val =>
    ((t.tableWrite offset val).1.toList, (t.tableWrite offset val).2)
  | .capWrite w => t.capWrite w
  | .clearPending => ([], t.clearPending)

/-- The vectors whose messages leave. -/
def sends (t : MsixTable) : MsixOp → List Nat
  | .fire v => if t.deliverable v then [v] else []
  | .tableWrite offset val =>
    if (t.tableWrite offset val).1.isSome then [offset / 16] else []
  | .capWrite w =>
    t.scan.filter fun v => !(t.capWrite w).2.pending v
  | .clearPending => []

/-- What an operation may do to the table, for every vector at once: what
leaves is the messages of `vs`, which can be delivered afterwards; what is
pending afterwards cannot; and a vector's pending bit, raised by an
interrupt, goes away by a message or a reset. -/
structure Sound (n : Nat) (t : MsixTable) (op : MsixOp) (vs : List Nat)
    (msgs : List MsiMessage) (t' : MsixTable) : Prop where
  fits : Fits n t'
  messages : msgs = vs.map t'.readEntry
  unmasked : ∀ v ∈ vs, t'.deliverable v = true
  held : ∀ v, t'.pending v = true → t'.deliverable v = false
  account : ∀ v, v < n → (if op = .fire v ∧ t.enabled = true ∧ t.pending v = false then 1 else 0)
        + (if t.pending v then 1 else 0) =
      vs.count v + (if op = .clearPending ∧ t.pending v = true then 1 else 0)
        + (if t'.pending v then 1 else 0)

theorem fire_eq (t : MsixTable) (v : Nat) : t.fire v =
      if t.deliverable v then (some (t.readEntry v), t)
      else if t.enabled && decide (v < t.entries.length) then
        (none, t.setWord (v / 64) (t.pba.getD (v / 64) 0 ||| (1#64 <<< (v % 64))))
      else (none, t) := by
  unfold fire deliverable readEntry
  cases hent : t.entries[v]? with
  | none =>
    have hlen := List.getElem?_eq_none_iff.1 hent
    simp [Nat.not_lt.2 hlen]
  | some e =>
    have hlen := (List.getElem?_eq_some_iff.1 hent).1
    cases t.enabled <;> cases t.funcMasked <;> cases hm : e.masked <;> simp [hlen, hm]

section Sound

variable {n : Nat} {t : MsixTable} (hfits : Fits n t)
  (hheld : ∀ v, t.pending v = true → t.deliverable v = false)
include hfits hheld

theorem sound_fire (v : Nat) : Sound n t (.fire v) (t.sends (.fire v)) (t.exec (.fire v)).1
      (t.exec (.fire v)).2 := by
  have hfits' : Fits n (t.fire v).2 := hfits.fire v
  simp only [sends, exec]
  rw [fire_eq] at hfits' ⊢
  by_cases hd : t.deliverable v = true
  · -- sent at once: a vector that can be delivered is not pending
    have hidle : t.pending v = false := by
      cases hp : t.pending v with
      | false => rfl
      | true => exact hd.symm.trans (hheld v hp)
    have hon : t.enabled = true := by
      simp only [deliverable, Bool.and_eq_true] at hd
      exact hd.1.1
    rw [if_pos hd, if_pos hd]
    refine ⟨hfits, rfl, by simpa using hd, hheld, fun u _ => ?_⟩
    by_cases huv : u = v
    · subst huv
      simp [hidle, hon]
    · simp [Ne.symm huv]
  rw [if_neg hd] at hfits'
  rw [if_neg hd, if_neg hd]
  by_cases hmark : (t.enabled && decide (v < t.entries.length)) = true
  · rw [if_pos hmark] at hfits' ⊢
    rw [Bool.and_eq_true, decide_eq_true_eq, hfits.entries] at hmark
    have hlen : v / 64 < t.pba.length := by
      rw [hfits.words]
      omega
    have hpending := fun u => pending_setWord_or (u := u) hlen
    refine ⟨hfits', rfl, nofun, fun u hu => ?_, fun u _ => ?_⟩
    · rw [hpending, Bool.or_eq_true, decide_eq_true_eq] at hu
      rcases hu with hu | rfl
      · exact hheld u hu
      · exact Bool.eq_false_iff.2 hd
    · rw [hpending]
      by_cases huv : u = v
      · subst huv
        cases t.pending u <;> simp [hmark.1]
      · simp [huv, Ne.symm huv]
  · rw [if_neg hmark]
    refine ⟨hfits, rfl, nofun, hheld, fun u hu => ?_⟩
    rw [Bool.and_eq_true, decide_eq_true_eq, hfits.entries, not_and] at hmark
    have hnot : ¬ (MsixOp.fire v = .fire u ∧ t.enabled = true ∧ t.pending u = false) := by
      rintro ⟨heq, hon, -⟩
      cases heq
      exact hmark hon hu
    rw [if_neg hnot]
    simp

omit hheld in
theorem sound_clearPending : Sound n t .clearPending (t.sends .clearPending)
      (t.exec .clearPending).1 (t.exec .clearPending).2 := by
  have hidle : ∀ u, t.clearPending.pending u = false := by
    intro u
    unfold pending clearPending
    rw [replicate_getD_zero]
    simp
  refine ⟨hfits.clearPending, rfl, nofun, fun u hu => ?_, fun u _ => ?_⟩
  · exact absurd ((hidle u).symm.trans hu) Bool.false_ne_true
  · simp [sends, exec, hidle]

omit hheld in
theorem sound_capWrite (w : BitVec 16) :
    Sound n t (.capWrite w) (t.sends (.capWrite w)) (t.exec (.capWrite w)).1
      (t.exec (.capWrite w)).2 := by
  -- the table with the new Message Control, before the drain
  let t₁ : MsixTable :=
    { t with
      enabled := w &&& 0x8000 != 0
      funcMasked := w &&& 0x4000 != 0 }
  obtain ⟨hmsgs, hdrained⟩ := drainPending_spec t₁
  have hexec : t.exec (.capWrite w) = t₁.drainPending := rfl
  have hpending : ∀ u, t₁.drainPending.2.pending u = (t.pending u && !t₁.deliverable u) := by
    intro u
    rw [hdrained.pending]
    show (t.pending u && _) = _
    cases hp : t.pending u with
    | false => rfl
    | true => simp [mem_scan, show t₁.pending u = true from hp]
  have hsends : t.sends (.capWrite w) = t.scan.filter t₁.deliverable := by
    refine List.filter_congr fun v hv => ?_
    show (!t₁.drainPending.2.pending v) = _
    rw [hpending, mem_scan.1 hv]
    simp
  rw [hexec, hsends]
  refine ⟨hfits.capWrite w, ?_, fun v hv => ?_, fun v hv => ?_, fun v _ => ?_⟩
  · rw [hmsgs, hdrained.readEntry]
    rfl
  · rw [hdrained.deliverable]
    exact (List.mem_filter.1 hv).2
  · rw [hpending, Bool.and_eq_true] at hv
    rw [hdrained.deliverable]
    simpa using hv.2
  · rw [hpending]
    have hcount : (t.scan.filter t₁.deliverable).count v =
        if t.pending v && t₁.deliverable v then 1 else 0 := by
      rw [(t.nodup_scan.filter _).count]
      simp [mem_scan]
    rw [hcount]
    cases t.pending v <;> cases t₁.deliverable v <;> simp

omit hfits in
/-- A table write takes what its vector has pending if that can be delivered
afterwards. -/
theorem tableWrite_eq (offset : Nat) (val : BitVec 32) :
    ∃ t₁ : MsixTable, t₁.pba = t.pba ∧ t₁.enabled = t.enabled ∧ t₁.funcMasked = t.funcMasked ∧
      (∀ u, u ≠ offset / 16 → t₁.entries[u]? = t.entries[u]?) ∧
      t.tableWrite offset val = if t₁.deliverable (offset / 16) && t₁.pending (offset / 16) then
          (some (t₁.readEntry (offset / 16)), t₁.unset (offset / 16))
        else (none, t₁) := by
  unfold tableWrite
  dsimp only
  cases hent : t.entries[offset / 16]? with
  | none =>
    refine ⟨t, rfl, rfl, rfl, fun _ _ => rfl, ?_⟩
    simp [deliverable, hent]
  | some e =>
    have hlen := (List.getElem?_eq_some_iff.1 hent).1
    let e' := writeField e (offset % 16) val
    let t₁ : MsixTable :=
      { t with entries := t.entries.set (offset / 16) e' }
    have hent' : t₁.entries[offset / 16]? = some e' :=
      List.getElem?_set_self hlen
    refine ⟨t₁, rfl, rfl, rfl, fun u hu => List.getElem?_set_ne (Ne.symm hu), ?_⟩
    dsimp only
    split
    · exact takePending_eq t₁ _
    case isFalse hmask =>
      rw [if_neg]
      intro htake
      rw [Bool.and_eq_true] at htake
      -- not an unmask, so it was unmasked before: it could be delivered
      have hclear : e'.masked = false := by
        simpa [deliverable, hent'] using (Bool.and_eq_true_iff.1 htake.1).2
      have hbefore : e.masked = false := by
        cases hm : e.masked with
        | false => rfl
        | true =>
          exact absurd (by simp [hm, show (writeField e (offset % 16)
            val).masked = false from hclear]) hmask
      have hd : t.deliverable (offset / 16) = true := by
        have h := htake.1
        simp only [deliverable, hent', Option.any_some, hclear] at h
        simpa [deliverable, hent, hbefore] using h
      rw [hheld _ htake.2] at hd
      cases hd

theorem sound_tableWrite (offset : Nat) (val : BitVec 32) :
    Sound n t (.tableWrite offset val) (t.sends (.tableWrite offset val))
      (t.exec (.tableWrite offset val)).1
      (t.exec (.tableWrite offset val)).2 := by
  have hfits' := hfits.tableWrite offset val
  simp only [sends, exec]
  obtain ⟨t₁, hpba, hon, hfm, hents, heq⟩ := tableWrite_eq hheld offset val
  have hpending : ∀ u, t₁.pending u = t.pending u := fun u => by
    unfold pending
    rw [hpba]
  have hother : ∀ u, u ≠ offset / 16 → t₁.deliverable u = t.deliverable u := by
    intro u hu
    unfold deliverable
    rw [hon, hfm, hents u hu]
  rw [heq] at hfits' ⊢
  split
  case isTrue htake =>
    rw [if_pos htake] at hfits'
    rw [Bool.and_eq_true] at htake
    refine ⟨hfits', rfl, fun v hv => ?_, fun u hu => ?_, fun u _ => ?_⟩
    · rw [List.mem_singleton.1 hv, deliverable_unset]
      exact htake.1
    · rw [pending_unset, hpending, Bool.and_eq_true, decide_eq_true_eq] at hu
      rw [deliverable_unset, hother u hu.2]
      exact hheld u hu.1
    · rw [pending_unset, hpending]
      by_cases hu : u = offset / 16
      · subst hu
        simp [← hpending, htake.2]
      · simp [hu, Ne.symm hu]
  case isFalse hkeep =>
    rw [if_neg hkeep] at hfits'
    refine ⟨hfits', rfl, nofun, fun u hu => ?_, fun u _ => ?_⟩
    · by_cases hidx : u = offset / 16
      · subst hidx
        rw [Bool.and_eq_true, not_and_or] at hkeep
        exact Bool.eq_false_iff.2 (hkeep.resolve_right (not_not.2 hu))
      · rw [hother u hidx]
        exact hheld u ((hpending u).symm.trans hu)
    · simp [hpending]

theorem sound_exec (op : MsixOp) : Sound n t op (t.sends op) (t.exec op).1 (t.exec op).2 := by
  cases op with
  | fire v => exact sound_fire hfits hheld v
  | tableWrite offset val => exact sound_tableWrite hfits hheld offset val
  | capWrite w => exact sound_capWrite hfits w
  | clearPending => exact sound_clearPending hfits

end Sound

-- ==== histories

/-- What has become of the interrupts of one vector. -/
structure Account where
  fired : Nat := 0
  /-- fired while MSI-X was disabled -/
  dropped : Nat := 0
  /-- fired while one was pending already -/
  coalesced : Nat := 0
  /-- pending at a reset -/
  cleared : Nat := 0
  delivered : Nat := 0
  deriving DecidableEq, Repr

/-- The account after one more operation, on the table before it. -/
def Account.note (v : Nat) (t : MsixTable) (op : MsixOp) (a : Account) : Account where
  fired := a.fired + if op = .fire v then 1 else 0
  dropped := a.dropped + if op = .fire v ∧ t.enabled = false then 1 else 0
  coalesced := a.coalesced + if op = .fire v ∧ t.enabled = true ∧ t.pending v = true then 1 else 0
  cleared := a.cleared + if op = .clearPending ∧ t.pending v = true then 1 else 0
  delivered := a.delivered + (t.sends op).count v

/-- The table after a sequence of operations. -/
def after (t : MsixTable) (ops : List MsixOp) : MsixTable :=
  ops.foldl (fun t op => (t.exec op).2) t

/-- The account of `v` over a sequence of operations. -/
def accountOf (v : Nat) (t : MsixTable) : List MsixOp → Account → Account
  | [], a => a
  | op :: ops, a => accountOf v (t.exec op).2 ops (a.note v t op)

/-- Every interrupt is accounted for. -/
def Account.Balanced (v : Nat) (t : MsixTable) (a : Account) : Prop :=
  a.fired = a.dropped + a.coalesced + a.cleared + a.delivered + if t.pending v then 1 else 0

theorem balanced_note {n : Nat} (hfits : Fits n t)
    (hheld : ∀ v, t.pending v = true → t.deliverable v = false) (hv : v < n) {a : Account}
    (h : a.Balanced v t) (op : MsixOp) :
    (a.note v t op).Balanced v (t.exec op).2 := by
  have hstep := (sound_exec hfits hheld op).account v hv
  -- an interrupt is dropped, coalesced, or raises the bit
  have hfire : (if op = .fire v then 1 else 0) = (if op = .fire v ∧ t.enabled = false then 1 else 0)
        + (if op = .fire v ∧ t.enabled = true ∧ t.pending v = true then 1 else 0)
        + (if op = .fire v ∧ t.enabled = true ∧ t.pending v = false then 1 else 0) := by
    cases t.enabled <;> cases t.pending v <;> simp
  simp only [Account.Balanced, Account.note] at h ⊢
  omega

-- two interrupts while masked, one message when the mask goes
example : accountOf 0 (new 1) [.capWrite 0x8000, .fire 0, .fire 0, .tableWrite 12 0] {} =
      { fired := 2, coalesced := 1, delivered := 1 } := by decide

/-- Over a whole sequence: the shape, what is pending, and the account of
one vector. -/
theorem run_inv {n : Nat} (ops : List MsixOp) (hfits : Fits n t)
    (hheld : ∀ v, t.pending v = true → t.deliverable v = false) :
    Fits n (t.after ops) ∧ (∀ v, (t.after ops).pending v = true →
        (t.after ops).deliverable v = false) ∧
      ∀ v a, v < n → a.Balanced v t → (accountOf v t ops a).Balanced v (t.after ops) := by
  induction ops generalizing t with
  | nil => exact ⟨hfits, hheld, fun _ _ _ h => h⟩
  | cons op ops ih =>
    have hsound := sound_exec hfits hheld op
    obtain ⟨hf, hh, hb⟩ := ih hsound.fits hsound.held
    exact ⟨hf, hh, fun v a hv h =>
      hb v _ hv (balanced_note hfits hheld hv h op)⟩

theorem pending_new (n v : Nat) : (new n).pending v = false := by
  unfold pending new
  rw [replicate_getD_zero]
  simp

/-- On a table of any size and over any sequence of operations: every
interrupt of a vector has been dropped while MSI-X was disabled, coalesced
with one that was pending, cleared by a reset, delivered, or is pending, the
last only while the vector cannot be delivered. Each message that leaves is
that of a vector that is enabled and unmasked at both levels. -/
theorem vectors_delivered (n : Nat) (ops : List MsixOp) :
    (∀ v, v < n →
      (accountOf v (new n) ops {}).Balanced v ((new n).after ops)) ∧
    (∀ v, ((new n).after ops).pending v = true →
      ((new n).after ops).deliverable v = false) ∧
    ∀ before op rest, ops = before ++ op :: rest →
      ((((new n).after before).exec op).1 =
        (((new n).after before).sends op).map
          (((new n).after before).exec op).2.readEntry) ∧
      ∀ v ∈ ((new n).after before).sends op,
        (((new n).after before).exec op).2.deliverable v = true := by
  have hheld : ∀ v, (new n).pending v = true → (new n).deliverable v = false :=
    fun v h => absurd ((pending_new n v).symm.trans h) Bool.false_ne_true
  obtain ⟨-, hh, hb⟩ := run_inv ops (fits_new n) hheld
  refine ⟨fun v hv => hb v {} hv ?_, hh, ?_⟩
  · simp [Account.Balanced, pending_new]
  · intro before op rest _
    obtain ⟨hf, hh, -⟩ := run_inv before (fits_new n) hheld
    have hsound := sound_exec hf hh op
    exact ⟨hsound.messages, hsound.unmasked⟩

-- ==== carried to another host

theorem export_importEntry (s : MsixEntryState) :
    ⟨(importEntry s).addr, (importEntry s).data, (importEntry s).control⟩ = s := by
  have haddr : (importEntry s).addr = s.addr := by
    refine BitVec.eq_of_getLsbD_eq fun i hi => ?_
    by_cases hlow : i < 32
    · simp [importEntry, MsixEntry.addr, hi, hlow]
    · have hback : 32 + (i - 32) = i := by omega
      have hhigh : i - 32 < 32 := by omega
      simp [importEntry, MsixEntry.addr, hi, hlow, hback, hhigh]
  rw [haddr]
  rfl

theorem mem_pbaVectors {v : Nat} (h : t.pending v = true) : v ∈ pbaVectors t.pba := by
  unfold pending at h
  cases hw : t.pba[v / 64]? with
  | none => simp [List.getD_eq_getElem?_getD, hw] at h
  | some w =>
    rw [List.getD_eq_getElem?_getD, hw] at h
    have hbit : v % 64 ∈ setBits w :=
      List.mem_filter.mpr ⟨List.mem_range.mpr (Nat.mod_lt _ (by decide)), h⟩
    refine List.mem_flatMap.mpr ⟨(w, v / 64), List.mem_zipIdx_iff_getElem?.mpr hw, ?_⟩
    exact List.mem_map.mpr ⟨_, hbit, Nat.div_add_mod' v 64⟩

theorem importState_eq_ok {n : Nat} {d : MsixTable} (hd : Fits n d) {st : MsixMigrateState} :
    d.importState st = .ok t ↔ Fits n t ∧ t.exportState = st := by
  refine ⟨fun h => ?_, fun ⟨ht, hst⟩ => hst ▸ importState_exportState ht hd⟩
  unfold importState at h
  split at h
  · cases h
  next hlen =>
    split at h
    · cases h
    next hpba =>
      split at h
      · cases h
      next hfind =>
        cases h
        rw [List.find?_eq_none] at hfind
        refine ⟨⟨?_, (not_not.mp hpba).trans hd.words, fun v hv => ?_⟩, ?_⟩
        · rw [List.length_map, not_not.mp hlen, hd.entries]
        · simpa [hd.entries] using hfind v (mem_pbaVectors hv)
        · simp [exportState, Function.comp_def, export_importEntry]

/-- At any point of a run the table survives a migration, whatever the table
at the other end was used for. A payload that no table of the size exports
is refused. -/
theorem table_carried (n : Nat) (used : List MsixOp) :
    (∀ ops, ((new n).after used).importState ((new n).after ops).exportState =
      .ok ((new n).after ops)) ∧
    ∀ st t, ((new n).after used).importState st = .ok t ↔ Fits n t ∧ t.exportState = st := by
  have hfits (ops : List MsixOp) : Fits n ((new n).after ops) := by
    refine (run_inv ops (fits_new n) fun v h => ?_).1
    exact absurd ((pending_new n v).symm.trans h) Bool.false_ne_true
  exact ⟨fun ops => importState_exportState (hfits ops) (hfits used),
    fun _ _ => importState_eq_ok (hfits used)⟩

end Rshyve.Virtio.Pci.MsixTable
