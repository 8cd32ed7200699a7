/-
# The bytes a request moves

A worker's request, run over bytes. The loops of `read_request` and
`write_request` carry one invariant each: after `moved` bytes, the first
`moved` addresses of the request's segments have been dealt with
(`ReadTo`, `WroteTo`). Beside it stands what holds of every request whatever
becomes of it (`Serving`): it reached the backing store only inside the
disk, and the guest ranges it wrote are on record.
-/
import Rshyve.Virtio.Proofs.BlkWindows

namespace Rshyve.Virtio.Blk

open Conc Discipline Rshyve.Mem Pour
open Keeps (andThen)

variable {dev : Device}

-- ==== waits change nothing

/-- The programs' data is `v`. -/
def Still (v : View) (s : Data) : Prop := s.toView = v

section

variable {v : View} {s : Data} {tag : RingTag}

theorem stays_ask {o : Op} (h : ∀ s, (perform o s).2 = s.tick) :
    (alone perform).Stays (Still v) (.call o) := by
  refine stays_call (fun _ _ => trivial) fun s _ hs _ => ?_
  show (perform o s).2.toView = v
  rw [h s]
  exact hs

theorem stays_ifAsk {R : Type} {o : Op} (h : ∀ s, (perform o s).2 = s.tick) {k : Ans o → Prog R}
    (hk : ∀ a, (alone perform).Stays (Still v) (k a)) :
    (alone perform).Stays (Still v) (call o >>= k) :=
  Stays.seq (stays_ask h) hk

theorem stays_enter : (alone perform).Stays (Still v) (enter dev tag).run := by
  refine stays_ifAsk (fun _ => rfl) fun isOpen => ?_
  split
  · split
    · refine stays_ifAsk (fun _ => rfl) fun _ => ?_
      refine stays_ifAsk (fun _ => rfl) fun isOpen => ?_
      split
      · refine stays_ifAsk (fun _ => rfl) fun generation => ?_
        split
        · exact stays_ifAsk (fun _ => rfl) fun _ => stays_ret
        · exact stays_ifAsk (fun _ => rfl) fun _ => stays_ret
      · exact stays_ifAsk (fun _ => rfl) fun _ => stays_ret
    · exact stays_ret
  · exact stays_ret

theorem stays_admitTicket {writes : Bool} :
    (alone perform).Stays (Still v) (admitTicket tag writes).run := by
  refine stays_loop fun _ => ?_
  refine stays_ifAsk (fun _ => rfl) fun _ => ?_
  refine stays_ifAsk (fun _ => rfl) fun current => ?_
  split
  · refine stays_ifAsk (fun _ => rfl) fun epoch => ?_
    split
    · exact stays_ret
    · exact stays_ret
  · exact stays_ifAsk (fun _ => rfl) fun _ => stays_ret

theorem moves_underSession {x : Touch} {Q : Data → Except Retired (TouchAns x) → Prop}
    (hgone : ∀ s', s'.toView = s.toView → Q s' (.error .retired))
    (hdone : ∀ s', s'.toView = (s.touch tag.queueIdx x).2 → Q s' (.ok (s.touch tag.queueIdx x).1)) :
    (alone perform).Keeps (underSession dev tag x).run Q s := by
  refine (stays_enter s rfl).tryThen (fun s' _ hs' => hgone s' hs') ?_
  intro s' _ hs'
  refine andThen (Keeps.lift (keeps_alone ?_))
  refine andThen (Keeps.lift (keeps_alone ?_))
  have htouch : s'.touch tag.queueIdx x = s.touch tag.queueIdx x :=
    congrArg (fun v : View => v.touch tag.queueIdx x) hs'
  show Q _ (.ok (s'.touch tag.queueIdx x).1)
  rw [htouch]
  refine hdone _ ?_
  show (s'.touch tag.queueIdx x).2 = _
  rw [htouch]

theorem moves_underTicket {writes : Bool} {d : Disk} {Q : Data → Except Retired Bool → Prop}
    (hgone : ∀ s', s'.toView = s.toView → Q s' (.error .retired))
    (hdone : ∀ s₁ s' : Data, s₁.toView = s.toView →
      s'.toView = (s₁.call d).2.toView → Q s' (.ok (s₁.call d).1)) :
    (alone perform).Keeps (underTicket tag writes d).run Q s := by
  refine (stays_admitTicket s rfl).tryThen ?_ ?_
  · intro s' _ hs'
    exact hgone s' hs'
  · intro s' _ hs'
    refine andThen (Keeps.lift (keeps_alone ?_))
    refine andThen (Keeps.lift (keeps_alone ?_))
    exact hdone s' _ hs' rfl

end

-- ==== the size of a transfer

variable {writable : Bool} {ranges : List (Nat × Nat)} {limits : DiskLimits}

variable {data : List ChainBuf} {total wanted r : Nat}

/-- What a fold over the data segments counts in one direction. -/
theorem foldFrom_dir (h : foldFrom (fun b => b.isWritable == writable) total wanted data = some
      r) : r = wanted + (addrsOf writable data).length := by
  induction data generalizing total wanted with
  | nil =>
    cases h
    rfl
  | cons b bs ih =>
    unfold foldFrom at h
    split at h
    · cases h
    split at h
    · cases h
    have hr := ih h
    unfold addrsOf
    by_cases hdir : b.isWritable = writable
    · simp only [hdir, beq_self_eq_true, if_true] at hr ⊢
      rw [hr, List.length_append, List.length_range', Nat.add_assoc]
    · simpa [hdir] using hr

/-- Both directions together count at least as much as one. -/
theorem foldFrom_all (h : foldFrom (fun _ => true) total wanted data = some r) :
    wanted + (addrsOf writable data).length ≤ r := by
  induction data generalizing total wanted with
  | nil =>
    cases h
    exact Nat.le_refl _
  | cons b bs ih =>
    unfold foldFrom at h
    split at h
    · cases h
    split at h
    · cases h
    have hr := ih h
    unfold addrsOf
    rw [if_pos rfl] at hr
    split
    · rw [List.length_append, List.length_range']
      omega
    · omega

variable {chain : List ChainBuf}

theorem transfer_eq (h : transfer chain writable = some total) :
    total = (dataAddrs chain writable).length := by
  obtain ⟨data, hdata, hfold⟩ := Option.bind_eq_some_iff.1 h
  split at hfold
  · cases hfold
  · rw [dataAddrs, hdata, Option.getD_some]
    simpa using foldFrom_dir hfold

/-- The folded bytes stay under the limit of one request. -/
theorem foldFrom_le {pick : ChainBuf → Bool}
    (h : foldFrom pick total wanted data = some r) (hle : wanted ≤ total)
    (htotal : total ≤ maxReqBytes) :
    r ≤ maxReqBytes := by
  induction data generalizing total wanted with
  | nil =>
    cases h
    exact Nat.le_trans hle htotal
  | cons b bs ih =>
    unfold foldFrom at h
    split at h
    · cases h
    split at h
    · cases h
    next hroom =>
      refine ih h ?_ (Nat.le_of_not_lt hroom)
      split <;> omega

theorem transfer_le {bytes : Nat} (h : transfer chain writable = some bytes) :
    bytes ≤ maxReqBytes := by
  obtain ⟨data, -, hfold⟩ := Option.bind_eq_some_iff.1 h
  split at hfold
  · cases hfold
  · exact foldFrom_le hfold (Nat.le_refl 0) (Nat.zero_le _)

theorem dataAddrs_le_span {bytes : Nat} (writable : Bool) (h : span chain = some bytes) :
    (dataAddrs chain writable).length ≤ bytes := by
  obtain ⟨data, hdata, hfold⟩ := Option.bind_eq_some_iff.1 h
  split at hfold
  · cases hfold
  · rw [dataAddrs, hdata, Option.getD_some]
    simpa using foldFrom_all hfold

/-- Bytes of the disk. -/
def Device.diskBytes (dev : Device) : Nat := dev.limits.capacity * sectorSize

/-- A transfer that passed the check ends inside the disk. -/
theorem checkHeader_fits {rtype sector : Nat}
    (h : checkHeader dev.limits.capacity chain ⟨rtype, sector⟩ = true)
    (hmoves : rtype = blkTIn ∨ rtype = blkTOut) :
    sector * sectorSize + (dataAddrs chain writable).length ≤ dev.diskBytes := by
  unfold checkHeader at h
  cases hspan : span chain with
  | none =>
    rw [hspan] at h
    cases h
  | some bytes =>
    simp only [hspan, if_pos hmoves] at h
    split at h
    · cases h
    cases hadd : checkedAdd sector ((bytes + sectorSize - 1) / sectorSize) with
    | none => simp [hadd] at h
    | some stop =>
      have hstop : stop ≤ dev.limits.capacity := by
        simpa [hadd] using h
      obtain ⟨rfl, -⟩ := checkedAdd_some hadd
      have hlen := dataAddrs_le_span writable hspan
      unfold Device.diskBytes sectorSize at *
      omega

theorem sectorOffset_eq {sector base : Nat}
    (h : sectorOffset sector = some base) : base = sector * sectorSize := by
  unfold sectorOffset at h
  split at h
  · cases h
    rfl
  · cases h

-- ==== requests in general

/-- A request has written `n` bytes into its chain since `v₀`, and has not
left the first `lim` bytes of the backing store. -/
structure Serving (lim : Nat) (chain : List ChainBuf) (v₀ v : View)
    (n : Nat) : Prop where
  space : v.mem.space = v₀.mem.space
  deeds : ∃ d ds writes, v₀.deeds = d :: ds ∧ v.deeds = { d with writes := writes } :: ds ∧
    wroteInto chain writes = n + wroteInto chain d.writes
  reached : ∀ range ∈ v.reached, range ∈ v₀.reached ∨ range.1 + range.2 ≤ lim

section

variable {lim n : Nat} {chain : List ChainBuf} {v₀ v v' : View}

theorem wroteInto_append (chain : List ChainBuf) (xs ys : List (Nat × Nat)) :
    wroteInto chain (xs ++ ys) = wroteInto chain xs + wroteInto chain ys := by
  simp [wroteInto]

theorem Serving.start {d : Deed} {ds : List Deed} (h : v.deeds = d :: ds) :
    Serving lim chain v v 0 :=
  ⟨rfl, ⟨d, ds, d.writes, h, h, (Nat.zero_add _).symm⟩, fun _ => .inl⟩

/-- A step that only reads guest memory, and reaches one range at most. -/
theorem Serving.same (h : Serving lim chain v₀ v n)
    (hspace : v'.mem.space = v.mem.space) (hdeeds : v'.deeds = v.deeds)
    (hreached : ∀ range ∈ v'.reached, range ∈ v.reached ∨ range.1 + range.2 ≤ lim) :
    Serving lim chain v₀ v' n := by
  refine ⟨hspace.trans h.space, by rw [hdeeds]; exact h.deeds, ?_⟩
  intro range hrange
  rcases hreached range hrange with hold | hnew
  · exact h.reached range hold
  · exact .inr hnew

theorem Serving.writing (h : Serving lim chain v₀ v n) {α : Type}
    (access : Target → Target × α) {t : Target} {a : α}
    (haccess : access ⟨v.mem, []⟩ = (t, a))
    (hspace : t.mem.space = v.mem.space) :
    Serving lim chain v₀ (v.writing access).2 (wroteInto chain t.writes + n) := by
  obtain ⟨d, ds, writes, hd, hds, hn⟩ := h.deeds
  have hview : (v.writing access).2 = { v with
      mem := t.mem
      deeds := { d with writes := t.writes ++ writes } :: ds } := by
    unfold View.writing View.note
    simp only [haccess, hds]
  rw [hview]
  refine ⟨hspace.trans h.space, ⟨d, ds, _, hd, rfl, ?_⟩, h.reached⟩
  rw [wroteInto_append, hn]
  omega

end

-- ==== what the calls do

/-- A read fills the buffer, or some of it if it fails. -/
theorem call_read (s : Data) (offset len : Nat) : ∃ bounce, (s.call (.read offset len)).2.toView
        = { s.toView with
            bounce := bounce, reached := (offset, len) :: s.reached } ∧
      ((s.call (.read offset len)).1 = true →
        peek bounce 0 len = peek s.file.bytes offset len) := by
  refine ⟨_, rfl, fun hok => ?_⟩
  have hok : (s.fates.answer s.clock (.disk (.read offset len)) &&
      decide (offset + len ≤ s.file.size)) = true := hok
  rw [if_pos hok]
  exact peek_poke_peek ..

/-- A write puts the data on the disk, or some of it if it fails. -/
theorem writeBackend_view (s : Data) (offset : Nat) (data : List UInt8) :
    ∃ file, (s.writeBackend offset data).2.toView = { s.toView with
            file := file, reached := (offset, data.length) :: s.reached } ∧
      ((s.writeBackend offset data).1 = true → file.bytes = poke s.file.bytes offset data) := by
  refine ⟨_, rfl, fun hok => ?_⟩
  have hok : s.fates.answer s.clock (.disk (.write offset data.length)) = true := hok
  rw [if_pos hok]

theorem call_write (s : Data) (offset len : Nat) : ∃ file, (s.call (.write offset len)).2.toView
        = { s.toView with
            file := file, reached := (offset, len) :: s.reached } ∧
      ((s.call (.write offset len)).1 = true →
        file.bytes = poke s.file.bytes offset (peek s.bounce 0 len)) := by
  have h := writeBackend_view s offset (peek s.bounce 0 len)
  rwa [peek_length] at h

-- ==== outcomes

/-- What a request that ends well has moved. -/
def Moved (req : BlkIoRequest) (v₀ v : View) : Prop :=
  (req.rtype = blkTIn → v.file = v₀.file ∧
    v.mem.bytes = pour v₀.mem.bytes (dataAddrs req.chain true)
      (peek v₀.file.bytes (req.sector * sectorSize) (dataAddrs req.chain true).length)) ∧
  (req.rtype = blkTOut → v.mem = v₀.mem ∧
    v.file.bytes = poke v₀.file.bytes (req.sector * sectorSize)
      ((dataAddrs req.chain false).map v₀.mem.bytes))

section

variable (dev : Device) (req : BlkIoRequest) (v₀ : View)

/-- The request has an outcome. The used length counts what was written if
the request went through, and the status byte that is still to come. -/
def Finished (v : View) (o : Outcome) : Prop :=
  ∃ n, Serving dev.diskBytes req.chain v₀ v n ∧
    o.2 = (if o.1 = blkSOk then n else 0) + 1 ∧
    (o.1 = blkSOk → Moved req v₀ v)

/-- The end of a part of a request: an outcome, or a ring that is gone. -/
def Through : Data → Except Retired Outcome → Prop
  | s, .ok o => Finished dev req v₀ s.toView o
  | s, .error _ => ∃ n, Serving dev.diskBytes req.chain v₀ s.toView n

/-- The end of one round of a loop that goes on in `J`. -/
def Round (J : Nat → View → Prop) : Data → Except Retired (Nat ⊕ Outcome) → Prop
  | s, .ok (.inl moved) => J moved s.toView
  | s, .ok (.inr o) => Finished dev req v₀ s.toView o
  | s, .error _ => ∃ n, Serving dev.diskBytes req.chain v₀ s.toView n

/-- `moved` bytes of a read are in guest memory. -/
structure ReadTo (moved : Nat) (v : View) : Prop where
  serving : Serving dev.diskBytes req.chain v₀ v moved
  file : v.file = v₀.file
  bytes : v.mem.bytes = pour v₀.mem.bytes ((dataAddrs req.chain true).take moved)
    (peek v₀.file.bytes (req.sector * sectorSize) moved)
  le : moved ≤ (dataAddrs req.chain true).length

/-- `moved` bytes of a write are on the disk. -/
structure WroteTo (moved : Nat) (v : View) : Prop where
  serving : Serving dev.diskBytes req.chain v₀ v 0
  mem : v.mem = v₀.mem
  bytes : v.file.bytes = poke v₀.file.bytes (req.sector * sectorSize)
    (((dataAddrs req.chain false).take moved).map v₀.mem.bytes)
  le : moved ≤ (dataAddrs req.chain false).length

end

section

variable {req : BlkIoRequest} {v₀ : View} {s : Data}

variable {v : View} {chain : List ChainBuf}

/-- A request that fails claims its status byte only. -/
theorem finished_failed {status : Nat}
    (h : ∃ n, Serving dev.diskBytes req.chain v₀ v n) (hs : status ≠ blkSOk) :
    Finished dev req v₀ v (status, 1) := by
  obtain ⟨n, hn⟩ := h
  exact ⟨n, hn, by rw [if_neg hs], fun h => absurd h hs⟩

variable {lim i offset len n : Nat}

/-- A copy into the guest, also one that stops on the way. -/
theorem Serving.scatter (h : Serving lim chain v₀ v n) :
    ∃ n', Serving lim chain v₀ (v.touch i (.scatter chain offset len)).2 n' :=
  ⟨_, h.writing (fun t => t.scatter chain offset len v.bounce) rfl (scatter_space _ _ _ _ _)⟩

variable {moved : Nat} {v' : View}

theorem ReadTo.read {bounce : Nat → UInt8} (h : ReadTo dev req v₀ moved v) (hv : v' = { v with
      bounce := bounce, reached := (offset, len) :: v.reached })
    (hlim : offset + len ≤ dev.diskBytes) : ReadTo dev req v₀ moved v' := by
  subst hv
  refine ⟨h.serving.same rfl rfl fun range hrange => ?_, h.file, h.bytes, h.le⟩
  rcases List.mem_cons.1 hrange with rfl | hold
  · exact .inr hlim
  · exact .inl hold

/-- The window of a read that was copied out. -/
theorem ReadTo.scatter (h : ReadTo dev req v₀ moved v)
    (hbuf : peek v.bounce 0 n = peek v₀.file.bytes (req.sector * sectorSize +
      moved) n) (hok : (v.touch i (.scatter req.chain moved n)).1 = true) :
    ReadTo dev req v₀ (moved + n) (v.touch i (.scatter req.chain moved n)).2 := by
  rcases ht : Target.scatter ⟨v.mem, []⟩ req.chain moved n v.bounce with ⟨t, ok⟩
  have hok : ok = true := by
    have hans : (Target.scatter ⟨v.mem, []⟩ req.chain moved n v.bounce).2 = true := hok
    rwa [ht] at hans
  subst hok
  obtain ⟨hmem, hlog, hlen⟩ := scatter_spec ht
  have hserving := h.serving.writing (fun t => t.scatter req.chain moved n v.bounce) ht
    (by rw [hmem])
  have hview : (v.touch i (.scatter req.chain moved n)).2.mem = t.mem ∧
      (v.touch i (.scatter req.chain moved n)).2.file = v.file := by
    obtain ⟨d, ds, writes, -, hds, -⟩ := h.serving.deeds
    simp only [View.touch, View.writing, View.note, ht, hds, and_self]
  have hwin : (window (dataAddrs req.chain true) moved n).length = n := hlen
  refine ⟨?_, hview.2.trans h.file, ?_, ?_⟩
  · rw [hlog] at hserving
    rwa [Nat.add_comm moved n]
  · rw [hview.1, hmem]
    rw [h.bytes, hbuf, ← pour_append _ (by simp [h.le]), peek_add, List.take_add]
    rfl
  · unfold window at hwin
    rw [List.length_take, List.length_drop] at hwin
    have := h.le
    omega

theorem moves_readRound (hfits : req.sector * sectorSize + (dataAddrs req.chain true).length
      ≤ dev.diskBytes)
    (hlen : (dataAddrs req.chain true).length ≤ maxReqBytes)
    (hin : req.rtype = blkTIn) (h : ReadTo dev req v₀ moved s.toView) :
    (alone perform).Keeps (readRound dev req (dataAddrs req.chain true).length
        (req.sector * sectorSize) moved).run
      (Round dev req v₀ (ReadTo dev req v₀)) s := by
  have hle := h.le
  unfold readRound
  split
  case isFalse hall =>
    -- every byte has arrived
    have hmoved : moved = (dataAddrs req.chain true).length := by omega
    subst hmoved
    refine ⟨_, h.serving, ?_, fun _ => ⟨fun _ => ?_, ?_⟩⟩
    · unfold maxReqBytes segMax sizeMax at hlen
      rw [if_pos rfl]
      dsimp only
      omega
    · refine ⟨h.file, h.bytes.trans ?_⟩
      rw [List.take_length]
    · intro hout
      rw [hin] at hout
      cases hout
  case isTrue hmore =>
    have hn := Nat.min_le_left ((dataAddrs req.chain true).length - moved) bounceBytes
    revert hn
    generalize min ((dataAddrs req.chain true).length - moved) bounceBytes = n
    intro hn
    cases hadd : checkedAdd (req.sector * sectorSize) moved with
    | none => exact finished_failed ⟨moved, h.serving⟩ (by decide)
    | some offset =>
      obtain ⟨rfl, -⟩ := checkedAdd_some hadd
      refine andThen (moves_underTicket ?_ ?_)
      · intro s' hs'
        exact ⟨moved, hs' ▸ h.serving⟩
      intro s₁ s₂ hs₁ hs₂
      obtain ⟨bounce, hview, hread⟩ := call_read s₁ (req.sector * sectorSize + moved) n
      rw [hs₁] at hview hread
      rw [hview] at hs₂
      have h₂ := h.read hs₂ (by omega)
      cases hok : (s₁.call (.read (req.sector * sectorSize + moved) n)).1 with
      | false => exact finished_failed ⟨moved, h₂.serving⟩ (by decide)
      | true =>
        refine andThen (moves_underSession ?_ ?_)
        · intro s' hs'
          exact ⟨moved, hs' ▸ h₂.serving⟩
        intro s₃ hs₃
        cases hcopy : (s₂.touch req.tag.queueIdx (.scatter req.chain moved n)).1 with
        | false =>
          refine finished_failed ?_ (by decide)
          rw [hs₃]
          exact h₂.serving.scatter
        | true =>
          show ReadTo dev req v₀ _ s₃.toView
          rw [hs₃]
          refine h₂.scatter ?_ hcopy
          rw [hs₂, ← h.file]
          exact hread hok

theorem moves_readRequest (hfits : req.sector * sectorSize + (dataAddrs req.chain true).length
      ≤ dev.diskBytes)
    (hin : req.rtype = blkTIn)
    (h : Serving dev.diskBytes req.chain s.toView s.toView 0) :
    (alone perform).Keeps (readRequest dev req).run (Through dev req s.toView) s := by
  unfold readRequest
  split
  next total base htotal hbase =>
    have hlen := transfer_le htotal
    obtain rfl := transfer_eq htotal
    obtain rfl := sectorOffset_eq hbase
    split
    next hzero =>
      refine ⟨0, h, rfl, fun _ => ⟨fun _ => ⟨rfl, ?_⟩, ?_⟩⟩
      · rw [List.eq_nil_of_length_eq_zero hzero]
        rfl
      · intro hout
        rw [hin] at hout
        cases hout
    · refine keeps_loopE (fun moved s' => ReadTo dev req s.toView moved s'.toView)
        ⟨h, rfl, rfl, Nat.zero_le _⟩ fun moved s' hJ => ?_
      refine (moves_readRound hfits hlen hin hJ).mono fun s'' x hx => ?_
      match x with
      | .error _ => exact hx
      | .ok (.inl _) => exact hx
      | .ok (.inr _) => exact hx
  · exact finished_failed ⟨0, h⟩ (by decide)

-- ==== writes

/-- A snapshot of a window, whether or not it went through. -/
theorem WroteTo.gather (h : WroteTo dev req v₀ moved v)
    (hv : v' = (v.touch i (.gather req.chain moved n)).2) :
    WroteTo dev req v₀ moved v' ∧ ((v.touch i (.gather req.chain moved n)).1 = true →
        peek v'.bounce 0 n = (window (dataAddrs req.chain false) moved n).map v₀.mem.bytes ∧
          (window (dataAddrs req.chain false) moved n).length = n) := by
  subst hv
  refine ⟨⟨h.serving.same rfl rfl fun _ => .inl, h.mem, h.bytes, h.le⟩, ?_⟩
  intro hok
  rw [← h.mem]
  exact gather_spec (Prod.ext rfl hok)

theorem Serving.write {file : Store} (h : Serving lim chain v₀ v n)
    (hv : v' = { v with file := file, reached := (offset, len) :: v.reached })
    (hlim : offset + len ≤ lim) : Serving lim chain v₀ v' n := by
  subst hv
  refine h.same rfl rfl fun range hrange => ?_
  rcases List.mem_cons.1 hrange with rfl | hold
  · exact .inr hlim
  · exact .inl hold

theorem moves_writeRound (hfits : req.sector * sectorSize + (dataAddrs req.chain false).length
      ≤ dev.diskBytes)
    (hout : req.rtype = blkTOut) (h : WroteTo dev req v₀ moved s.toView) :
    (alone perform).Keeps (writeRound dev req (dataAddrs req.chain false).length
        (req.sector * sectorSize) moved).run
      (Round dev req v₀ (WroteTo dev req v₀)) s := by
  have hle := h.le
  unfold writeRound
  split
  case isFalse hall =>
    have hmoved : moved = (dataAddrs req.chain false).length := by omega
    subst hmoved
    refine ⟨_, h.serving, rfl, fun _ => ⟨?_, fun _ => ⟨h.mem, ?_⟩⟩⟩
    · intro hin
      rw [hout] at hin
      cases hin
    · refine h.bytes.trans ?_
      rw [List.take_length]
  case isTrue hmore =>
    have hn := Nat.min_le_left ((dataAddrs req.chain false).length - moved) bounceBytes
    revert hn
    generalize min ((dataAddrs req.chain false).length - moved) bounceBytes = n
    intro hn
    refine andThen (moves_underSession ?_ ?_)
    · intro s' hs'
      exact ⟨0, hs' ▸ h.serving⟩
    intro s₁ hs₁
    obtain ⟨h₁, hsnap⟩ := h.gather hs₁
    cases hcopy : (s.touch req.tag.queueIdx (.gather req.chain moved n)).1 with
    | false => exact finished_failed ⟨0, h₁.serving⟩ (by decide)
    | true =>
      obtain ⟨hbuf, hlen⟩ := hsnap hcopy
      cases hadd : checkedAdd (req.sector * sectorSize) moved with
      | none => exact finished_failed ⟨0, h₁.serving⟩ (by decide)
      | some offset =>
        obtain ⟨rfl, -⟩ := checkedAdd_some hadd
        refine andThen (moves_underTicket ?_ ?_)
        · intro s' hs'
          exact ⟨0, hs' ▸ h₁.serving⟩
        intro s₂ s₃ hs₂ hs₃
        obtain ⟨file, hview, hwrite⟩ := call_write s₂ (req.sector * sectorSize + moved) n
        rw [hs₂] at hview
        have hv : s₃.toView = _ := hs₃.trans hview
        have hserving := h₁.serving.write hv (by omega)
        cases hok : (s₂.call (.write (req.sector * sectorSize + moved) n)).1 with
        | false => exact finished_failed ⟨0, hserving⟩ (by decide)
        | true =>
          refine ⟨hserving, by rw [hv]; exact h₁.mem, ?_, by omega⟩
          have hfile := hwrite hok
          rw [hs₂, hbuf, h₁.bytes] at hfile
          have htake : (((dataAddrs req.chain false).take moved).map
              v₀.mem.bytes).length = moved := by simp [h.le]
          have hpoke := poke_append v₀.file.bytes (req.sector * sectorSize)
            (((dataAddrs req.chain false).take moved).map v₀.mem.bytes)
            ((window (dataAddrs req.chain false) moved n).map v₀.mem.bytes)
          rw [htake, ← hfile, ← List.map_append] at hpoke
          rw [hv, List.take_add]
          exact hpoke.symm

theorem moves_writeRequest (hfits : req.sector * sectorSize + (dataAddrs req.chain false).length
      ≤ dev.diskBytes)
    (hout : req.rtype = blkTOut)
    (h : Serving dev.diskBytes req.chain s.toView s.toView 0) :
    (alone perform).Keeps (writeRequest dev req).run (Through dev req s.toView) s := by
  have hnone : s.file.bytes = poke s.file.bytes (req.sector * sectorSize) [] := by
    rw [poke_eq_pour]
    rfl
  unfold writeRequest
  split
  next total base htotal hbase =>
    obtain rfl := transfer_eq htotal
    obtain rfl := sectorOffset_eq hbase
    split
    next hzero =>
      refine ⟨0, h, rfl, fun _ => ⟨?_, fun _ => ⟨rfl, ?_⟩⟩⟩
      · intro hin
        rw [hout] at hin
        cases hin
      · rw [List.eq_nil_of_length_eq_zero hzero]
        exact hnone
    · refine keeps_loopE (fun moved s' => WroteTo dev req s.toView moved s'.toView)
        ⟨h, rfl, hnone, Nat.zero_le _⟩ fun moved s' hJ => ?_
      refine (moves_writeRound hfits hout hJ).mono fun s'' x hx => ?_
      match x with
      | .error _ => exact hx
      | .ok (.inl _) => exact hx
      | .ok (.inr _) => exact hx
  · exact finished_failed ⟨0, h⟩ (by decide)

-- ==== flushes and zeroing

/-- A backend call that leaves guest memory and the records of it alone, and
reaches only the first `lim` bytes. -/
structure Confined (lim : Nat) (s s' : Data) : Prop where
  mem : s'.mem = s.mem
  deeds : s'.deeds = s.deeds
  reached : ∀ range ∈ s'.reached, range ∈ s.reached ∨ range.1 + range.2 ≤ lim

theorem Confined.refl (lim : Nat) (s : Data) : Confined lim s s :=
  ⟨rfl, rfl, fun _ => .inl⟩

theorem Confined.trans {s₁ s₂ : Data} (h₁ : Confined lim s s₁)
    (h₂ : Confined lim s₁ s₂) : Confined lim s s₂ := by
  refine ⟨h₂.mem.trans h₁.mem, h₂.deeds.trans h₁.deeds, fun range hr => ?_⟩
  rcases h₂.reached range hr with h | h
  · exact h₁.reached range h
  · exact .inr h

theorem confined_writeBackend (s : Data) (offset : Nat)
    (data : List UInt8) (h : offset + data.length ≤ lim) :
    Confined lim s (s.writeBackend offset data).2 := by
  refine ⟨rfl, rfl, fun range hrange => ?_⟩
  rcases List.mem_cons.1 hrange with rfl | hold
  · exact .inr h
  · exact .inl hold

theorem confined_zeroFrom {remaining : Nat} (h : offset + remaining ≤ lim) :
    Confined lim s (s.zeroFrom offset remaining).2 := by
  fun_induction Data.zeroFrom s offset remaining with
  | case1 => exact Confined.refl _ _
  | case2 => exact Confined.refl _ _
  | case3 s offset remaining _ chunk _ s' hw =>
    have hstep : Confined lim s _ := confined_writeBackend s offset
      (List.replicate chunk 0) (by simp [chunk]; omega)
    rwa [hw] at hstep
  | case4 s offset remaining _ chunk _ s' hw ih =>
    have hstep : Confined lim s _ := confined_writeBackend s offset
      (List.replicate chunk 0) (by simp [chunk]; omega)
    rw [hw] at hstep
    exact hstep.trans (ih (by simp only [chunk]; omega))

theorem confined_writeZeroRange {sector numSectors : Nat}
    (h : sector + numSectors ≤ dev.limits.capacity) :
    Confined dev.diskBytes s (s.writeZeroRange sector numSectors).2 := by
  unfold Data.writeZeroRange
  split
  · refine confined_zeroFrom ?_
    rw [← Nat.add_mul]
    exact Nat.mul_le_mul_right sectorSize h
  · exact Confined.refl _ _

/-- The ranges of a plan lie on the disk. -/
theorem confined_zero (h : ∀ r ∈ ranges, r.1 + r.2 ≤ dev.limits.capacity) :
    Confined dev.diskBytes s (s.zero ranges).2 := by
  induction ranges generalizing s with
  | nil => exact Confined.refl _ _
  | cons r rest ih =>
    have hfirst := confined_writeZeroRange (s := s) (h r List.mem_cons_self)
    unfold Data.zero
    rcases hz : s.writeZeroRange r.1 r.2 with ⟨ok, s'⟩
    rw [hz] at hfirst
    cases ok with
    | false => exact hfirst
    | true =>
      exact hfirst.trans (ih fun r hr => h r (List.mem_cons_of_mem _ hr))

theorem checkSegment_fits {writeZeroes : Bool} {raw : List UInt8}
    {r : Nat × Nat} (h : checkSegment limits writeZeroes raw = .ok r) :
    r.1 + r.2 ≤ limits.capacity := by
  unfold checkSegment at h
  extract_lets sector numSectors flags reserved maxSectors at h
  split at h
  · cases h
  split at h
  · cases h
  split at h
  · cases h
  next stop hstop =>
    obtain ⟨rfl, -⟩ := checkedAdd_some hstop
    split at h
    · cases h
    next hle =>
      cases h
      exact Nat.le_of_not_lt hle

theorem checkSegments_fit {writeZeroes : Bool} {payload : List UInt8}
    (h : checkSegments limits writeZeroes n payload = .ok ranges) :
    ∀ r ∈ ranges, r.1 + r.2 ≤ limits.capacity := by
  induction n generalizing payload ranges with
  | zero =>
    cases h
    exact fun r hr => nomatch hr
  | succ n ih =>
    unfold checkSegments at h
    cases hfirst : checkSegment limits writeZeroes (payload.take discardSegSize) with
    | error e =>
      rw [hfirst] at h
      cases h
    | ok range =>
      cases hrest : checkSegments limits writeZeroes n (payload.drop discardSegSize) with
      | error e =>
        rw [hfirst, hrest] at h
        cases h
      | ok rest =>
        rw [hfirst, hrest] at h
        cases h
        intro r hr
        rcases List.mem_cons.1 hr with rfl | hr
        · exact checkSegment_fits hfirst
        · exact ih hrest r hr

theorem planPayload_fits {rtype : Nat} {payload : Option (List UInt8)}
    (h : planPayload limits rtype payload = .zero ranges) :
    ∀ r ∈ ranges, r.1 + r.2 ≤ limits.capacity := by
  unfold planPayload at h
  split at h
  · cases h
  · dsimp only at h
    split at h
    · cases h
    split at h
    · cases h
    next hsegs =>
      split at h
      · cases h
        exact checkSegments_fit hsegs
      · cases h

/-- Requests of the kinds that move no data are not transfers. -/
theorem moved_other (hin : req.rtype ≠ blkTIn) (hout : req.rtype ≠ blkTOut) : Moved req v₀ v :=
  ⟨fun h => absurd h hin, fun h => absurd h hout⟩

theorem Serving.confined {s' : Data}
    (h : Serving lim chain v₀ s.toView n) (hc : Confined lim s s') :
    Serving lim chain v₀ s'.toView n :=
  h.same (congrArg GuestMem.space hc.mem) hc.deeds hc.reached

/-- One backend call that is the whole of a request. -/
theorem moves_onlyCall {writes : Bool} {d : Disk}
    (hin : req.rtype ≠ blkTIn) (hout : req.rtype ≠ blkTOut)
    (hd : ∀ s : Data, Confined dev.diskBytes s (s.call d).2)
    (h : Serving dev.diskBytes req.chain v₀ s.toView 0) :
    (alone perform).Keeps (do
        if ← underTicket req.tag writes d then pure (blkSOk, 1)
        else pure (blkSIoerr, 1) : Live Outcome).run
      (Through dev req v₀) s := by
  refine andThen (moves_underTicket ?_ ?_)
  · intro s' hs'
    exact ⟨0, hs' ▸ h⟩
  intro s₁ s₂ hs₁ hs₂
  have hserving : Serving dev.diskBytes req.chain v₀ s₂.toView 0 := by
    rw [hs₂]
    exact Serving.confined (hs₁ ▸ h) (hd s₁)
  cases (s₁.call d).1 with
  | false => exact finished_failed ⟨0, hserving⟩ (by decide)
  | true => exact ⟨0, hserving, rfl, fun _ => moved_other hin hout⟩

/-- A plan leaves everything as it was, and names ranges on the disk. -/
theorem moves_discardPlan : (alone perform).Keeps (discardPlan dev req).run
      (fun s' r => s'.toView = s.toView ∧ ∀ ranges, r = .ok (.zero ranges) →
        ∀ range ∈ ranges, range.1 + range.2 ≤ dev.limits.capacity) s := by
  refine (stays_enter s rfl).tryThen ?_ ?_
  · exact fun s' _ hs' => ⟨hs', nofun⟩
  intro s₁ _ hs₁
  refine andThen (Keeps.lift ?_)
  have hend (plan : Plan) (s₂ : Data) (hs₂ : s₂.toView = s.toView)
      (hplan : ∀ ranges, plan = .zero ranges →
        ∀ range ∈ ranges, range.1 + range.2 ≤ dev.limits.capacity) :
      (alone perform).Keeps (do
          ExceptT.lift (call .readUnlock)
          pure plan : Live Plan).run
        (fun s' r => s'.toView = s.toView ∧ ∀ ranges, r = .ok (.zero ranges) →
          ∀ range ∈ ranges, range.1 + range.2 ≤ dev.limits.capacity) s₂ := by
    refine andThen (Keeps.lift (keeps_alone ?_))
    refine ⟨hs₂, fun ranges hr => hplan ranges ?_⟩
    cases hr
    rfl
  split
  · exact hend _ s₁ hs₁ nofun
  · split
    · exact hend _ s₁ hs₁ fun ranges hr => planPayload_fits hr
    · refine Keeps.seq (keeps_alone ?_)
      exact hend _ _ hs₁ fun ranges hr => planPayload_fits hr

theorem moves_dwzRequest (hin : req.rtype ≠ blkTIn) (hout : req.rtype ≠ blkTOut)
    (h : Serving dev.diskBytes req.chain v₀ s.toView 0) :
    (alone perform).Keeps (dwzRequest dev req).run (Through dev req v₀) s := by
  refine moves_discardPlan.tryThen ?_ ?_
  · intro s' _ hs'
    exact ⟨0, hs'.1 ▸ h⟩
  intro s' plan ⟨hs', hplan⟩
  cases plan with
  | settled status =>
    exact ⟨0, hs' ▸ h, by rw [ite_self], fun _ => moved_other hin hout⟩
  | zero ranges =>
    refine moves_onlyCall hin hout (fun s => ?_) (hs' ▸ h)
    exact confined_zero (hplan ranges rfl)

-- ==== whole requests

/-- What a request does before its status is written, for a chain and a
header that passed the check. -/
theorem moves_requestBody (hcheck : checkHeader dev.limits.capacity req.chain
      ⟨req.rtype, req.sector⟩ = true)
    (h : Serving dev.diskBytes req.chain s.toView s.toView 0) :
    (alone perform).Keeps (requestBody dev req).run (Through dev req s.toView) s := by
  unfold requestBody
  split
  next hin => exact moves_readRequest (checkHeader_fits hcheck (.inl hin)) hin h
  next hin =>
    split
    next hout =>
      split
      · exact finished_failed ⟨0, h⟩ (by decide)
      · exact moves_writeRequest (checkHeader_fits hcheck (.inr hout)) hout h
    next hout =>
      split
      · exact moves_onlyCall hin hout (fun s => ⟨rfl, rfl, fun _ => .inl⟩) h
      split
      · exact moves_dwzRequest hin hout h
      · exact finished_failed ⟨0, h⟩ (by decide)

/-- The end of a whole request: an outcome and its status, or a ring that is
gone. -/
def Ended (dev : Device) (req : BlkIoRequest) (v₀ : View) : Data → Except Retired (Nat × Nat) → Prop
  | s, .error _ => ∃ n, Serving dev.diskBytes req.chain v₀ s.toView n
  | s, .ok entry => ∃ v status, entry.1 = req.head ∧ Finished dev req v₀ v (status, entry.2) ∧
      s.toView = (v.touch req.tag.queueIdx (.status req.chain status)).2

theorem moves_runRequest (hcheck : checkHeader dev.limits.capacity req.chain
      ⟨req.rtype, req.sector⟩ = true)
    (h : Serving dev.diskBytes req.chain s.toView s.toView 0) :
    (alone perform).Keeps (runRequest dev req).run (Ended dev req s.toView) s := by
  refine (moves_requestBody hcheck h).tryThen (fun _ _ h => h) ?_
  intro s₁ outcome hdone
  refine andThen (moves_underSession ?_ ?_)
  · intro s' hs'
    obtain ⟨n, hserving, -⟩ := hdone
    exact ⟨n, hs' ▸ hserving⟩
  · intro s' hs'
    exact ⟨s₁.toView, outcome.1, rfl, hdone, hs'⟩

theorem touch_status {d : Deed} {ds : List Deed} (h : v.deeds = d :: ds)
    (i : Nat) (chain : List ChainBuf) (status : Nat) :
    (v.touch i (.status chain status)).2 = { v with
      mem := (Target.writeStatus ⟨v.mem, []⟩ chain status).mem
      deeds := { d with
        writes := (Target.writeStatus ⟨v.mem, []⟩ chain status).writes ++ d.writes
        status := some status } :: ds } := by
  unfold View.touch View.writing View.note
  simp only [h]

end

end Rshyve.Virtio.Blk
