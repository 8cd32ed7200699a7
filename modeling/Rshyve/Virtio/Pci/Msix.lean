/-
# The MSI-X table

`vmm-devices/src/pci/msix.rs`: the vector entries, Message Control and the
pending bit array, as a guest programs them through the table BAR and the
capability, as interrupts mark them pending, and as a migration carries
them. The sink is a kernel call; a message that leaves is a result here.

The pending bits never name a vector past the table (`Fits`), which is what
lets an exported table pass the checks of the import.
-/
import Mathlib

namespace Rshyve.Virtio.Pci

/-- A single MSI-X vector entry; bit 0 of `control` masks it. -/
structure MsixEntry where
  addrLo : BitVec 32
  addrHi : BitVec 32
  data : BitVec 32
  control : BitVec 32
  deriving DecidableEq, Repr

/-- `MsixEntry::default`: masked. -/
def MsixEntry.unset : MsixEntry := ⟨0, 0, 0, 1⟩

def MsixEntry.masked (e : MsixEntry) : Bool := e.control &&& 1 != 0

/-- The 64-bit message address of an entry. -/
def MsixEntry.addr (e : MsixEntry) : BitVec 64 :=
  e.addrLo.setWidth 64 ||| (e.addrHi.setWidth 64 <<< 32)

/-- `MsixInner`. -/
structure MsixTable where
  entries : List MsixEntry
  enabled : Bool
  funcMasked : Bool
  pba : List (BitVec 64)
  deriving DecidableEq, Repr

/-- A message: address and data. -/
abbrev MsiMessage := BitVec 64 × BitVec 64

/-- The positions of the bits that are set, lowest first. -/
def setBits (w : BitVec 64) : List Nat := (List.range 64).filter w.getLsbD

namespace MsixTable

def new (count : Nat) : MsixTable where
  entries := List.replicate count .unset
  enabled := false
  funcMasked := false
  pba := List.replicate ((count + 63) / 64) 0

def count (t : MsixTable) : Nat := t.entries.length

/-- Whether the array records an interrupt for `vector`. -/
def pending (t : MsixTable) (vector : Nat) : Bool :=
  (t.pba.getD (vector / 64) 0).getLsbD (vector % 64)

def setWord (t : MsixTable) (word : Nat) (bits : BitVec 64) : MsixTable :=
  { t with pba := t.pba.set word bits }

/-- Raise a vector: dropped while MSI-X is off, recorded while masked. -/
def fire (t : MsixTable) (vector : Nat) : Option MsiMessage × MsixTable :=
  match t.entries[vector]? with
  | none => (none, t)
  | some e =>
    if !t.enabled then (none, t)
    else if t.funcMasked || e.masked then
      (none, t.setWord (vector / 64) (t.pba.getD (vector / 64) 0 ||| (1#64 <<< (vector % 64))))
    else (some (e.addr, e.data.setWidth 64), t)

/-- Drop every message the array is holding. -/
def clearPending (t : MsixTable) : MsixTable :=
  { t with pba := List.replicate t.pba.length 0 }

/-- Take the message one vector has pending, if it can be sent now. -/
def takePending (t : MsixTable) (idx : Nat) : Option MsiMessage × MsixTable :=
  if !t.enabled || t.funcMasked then (none, t)
  else match t.entries[idx]? with
    | none => (none, t)
    | some e =>
      if e.masked then (none, t)
      else match t.pba[idx / 64]? with
        | none => (none, t)
        | some word =>
          if word &&& (1#64 <<< (idx % 64)) = 0 then (none, t)
          else
            (some (e.addr, e.data.setWidth 64),
              t.setWord (idx / 64) (word &&& ~~~(1#64 <<< (idx % 64))))

/-- One turn of the loop of `drain_pending`. -/
def drainOne (acc : List MsiMessage × MsixTable) (idx : Nat) : List MsiMessage × MsixTable :=
  let r := acc.2.takePending idx
  (acc.1 ++ r.1.toList, r.2)

/-- Take every message that can be sent now, word by word. -/
def drainPending (t : MsixTable) : List MsiMessage × MsixTable :=
  (List.range t.pba.length).foldl (fun acc word =>
      (setBits (acc.2.pba.getD word 0)).foldl (fun acc bit => drainOne acc (word * 64 + bit)) acc)
    ([], t)

/-- Write a field of one entry. -/
def writeField (e : MsixEntry) (field : Nat) (val : BitVec 32) : MsixEntry :=
  match field with
  | 0 => { e with addrLo := val }
  | 4 => { e with addrHi := val }
  | 8 => { e with data := val }
  | 12 => { e with control := val }
  | _ => e

/-- `table_write_deferred`: an unmask hands back what was pending for the
one vector. -/
def tableWrite (t : MsixTable) (offset : Nat) (val : BitVec 32) : Option MsiMessage × MsixTable :=
  let idx := offset / 16
  match t.entries[idx]? with
  | none => (none, t)
  | some e =>
    let e' := writeField e (offset % 16) val
    let t' := { t with entries := t.entries.set idx e' }
    if e.masked && !e'.masked then t'.takePending idx else (none, t')

def tableRead (t : MsixTable) (offset : Nat) : BitVec 32 :=
  match t.entries[offset / 16]? with
  | none => 0
  | some e =>
    match offset % 16 with
    | 0 => e.addrLo
    | 4 => e.addrHi
    | 8 => e.data
    | 12 => e.control
    | _ => 0

/-- Message Control as the capability reads: the table size less one, the
function mask and the enable bit. -/
def msgCtrl (t : MsixTable) : BitVec 16 :=
  (BitVec.ofNat 16 (t.entries.length - 1) &&& 0x7FF)
    ||| (if t.enabled then 0x8000 else 0)
    ||| (if t.funcMasked then 0x4000 else 0)

/-- `cap_write_deferred` on the first dword: Message Control, and the
messages that clearing the function mask releases. -/
def capWrite (t : MsixTable) (msgCtrl : BitVec 16) : List MsiMessage × MsixTable :=
  drainPending
    { t with
      enabled := msgCtrl &&& 0x8000 != 0
      funcMasked := msgCtrl &&& 0x4000 != 0 }

/-- `read_entry`: the message of a vector, zero past the table. -/
def readEntry (t : MsixTable) (vector : Nat) : BitVec 64 × BitVec 64 :=
  match t.entries[vector]? with
  | none => (0, 0)
  | some e => (e.addr, e.data.setWidth 64)

end MsixTable

-- ==== the migration wire

/-- One table entry on the wire. -/
structure MsixEntryState where
  addr : BitVec 64
  data : BitVec 32
  control : BitVec 32
  deriving DecidableEq, Repr

/-- The whole table on the wire. -/
structure MsixMigrateState where
  enabled : Bool
  funcMasked : Bool
  entries : List MsixEntryState
  pba : List (BitVec 64)
  deriving DecidableEq, Repr

/-- An MSI-X payload the local table cannot hold. -/
inductive MsixImportError where
  | entryCount (payload localCount : Nat)
  | pbaLength (payload localLength : Nat)
  | pbaPastTable (vector count : Nat)
  deriving DecidableEq, Repr

def MsixImportError.text : MsixImportError → String
  | entryCount p l =>
    "payload has " ++ toString p ++ " MSI-X entries, this device has " ++ toString l
  | pbaLength p l =>
    "payload has " ++ toString p ++ " PBA words, this device has " ++ toString l
  | pbaPastTable v c =>
    "PBA marks vector " ++ toString v ++ " pending, past the " ++ toString c ++ "-entry table"

namespace MsixTable

def exportState (t : MsixTable) : MsixMigrateState where
  enabled := t.enabled
  funcMasked := t.funcMasked
  entries := t.entries.map fun e => ⟨e.addr, e.data, e.control⟩
  pba := t.pba

/-- The vectors an array of pending bits names, in the order of its scan. -/
def pbaVectors (pba : List (BitVec 64)) : List Nat :=
  pba.zipIdx.flatMap fun (w, word) => (setBits w).map (word * 64 + ·)

def importEntry (from_ : MsixEntryState) : MsixEntry where
  addrLo := from_.addr.setWidth 32
  addrHi := (from_.addr >>> 32).setWidth 32
  data := from_.data
  control := from_.control

/-- Put a source's table back, masks and pending bits included. -/
def importState (t : MsixTable) (st : MsixMigrateState) : Except MsixImportError MsixTable :=
  if st.entries.length ≠ t.entries.length then
    .error (.entryCount st.entries.length t.entries.length)
  else if st.pba.length ≠ t.pba.length then
    .error (.pbaLength st.pba.length t.pba.length)
  else match (pbaVectors st.pba).find? (t.entries.length ≤ ·) with
    | some v => .error (.pbaPastTable v t.entries.length)
    | none => .ok
        { entries := st.entries.map importEntry
          enabled := st.enabled
          funcMasked := st.funcMasked
          pba := st.pba }

-- ==== the shape it keeps

/-- A table of `n` vectors: an entry and a pending bit for each, and no
pending bit past the last. -/
structure Fits (n : Nat) (t : MsixTable) : Prop where
  entries : t.entries.length = n
  words : t.pba.length = (n + 63) / 64
  bits : ∀ v, t.pending v = true → v < n

/-- An array of zeroes records nothing. -/
theorem replicate_getD_zero (k i : Nat) : (List.replicate k (0 : BitVec 64)).getD i 0 = 0 := by
  rw [List.getD_eq_getElem?_getD, List.getElem?_replicate]
  split <;> rfl

theorem fits_new (n : Nat) : Fits n (new n) where
  entries := by simp [new]
  words := by simp [new]
  bits v h := by
    unfold pending new at h
    rw [replicate_getD_zero] at h
    simp at h

variable {n : Nat} {t : MsixTable}

/-- Replacing a word by one whose bits all stay inside the table. -/
theorem Fits.setWord (h : Fits n t) {word : Nat} {bits : BitVec 64}
    (hb : ∀ i, i < 64 → bits.getLsbD i = true →
      t.pending (word * 64 + i) = true ∨ word * 64 + i < n) :
    Fits n (t.setWord word bits) where
  entries := h.entries
  words := by simp [MsixTable.setWord, h.words]
  bits v hv := by
    unfold pending MsixTable.setWord at hv
    simp only [List.getD_eq_getElem?_getD, List.getElem?_set] at hv
    split at hv
    · rename_i hw
      split at hv
      · have hm : v % 64 < 64 := Nat.mod_lt _ (by decide)
        have hvw : word * 64 + v % 64 = v := by omega
        rcases hb (v % 64) hm (by simpa using hv) with hp | hlt
        · rw [hvw] at hp
          exact h.bits v hp
        · omega
      · simp at hv
    · apply h.bits v
      unfold pending
      simpa [List.getD_eq_getElem?_getD] using hv

theorem Fits.fire (h : Fits n t) (v : Nat) : Fits n (t.fire v).2 := by
  unfold MsixTable.fire
  split
  · exact h
  · rename_i e he
    split
    · exact h
    split
    · apply h.setWord
      intro i hi hbit
      have hv : v < n := by
        have := (List.getElem?_eq_some_iff.1 he).1
        rw [h.entries] at this
        exact this
      rw [BitVec.getLsbD_or, Bool.or_eq_true] at hbit
      rcases hbit with hbit | hbit
      · left
        unfold pending
        have h₁ : (v / 64 * 64 + i) / 64 = v / 64 := by omega
        have h₂ : (v / 64 * 64 + i) % 64 = i := by omega
        rw [h₁, h₂]
        exact hbit
      · right
        have : i = v % 64 := by
          simp only [BitVec.getLsbD_shiftLeft, BitVec.getLsbD_one] at hbit
          simp at hbit
          omega
        omega
    · exact h

/-- Raising a vector touches nothing but its own pending bit. -/
theorem fire_table (t : MsixTable) (v : Nat) :
    (t.fire v).2.entries = t.entries ∧ (t.fire v).2.enabled = t.enabled ∧
      (t.fire v).2.funcMasked = t.funcMasked := by
  unfold MsixTable.fire
  split
  · exact ⟨rfl, rfl, rfl⟩
  split
  · exact ⟨rfl, rfl, rfl⟩
  split <;> exact ⟨rfl, rfl, rfl⟩

/-- The pending bits after one word gained a bit. -/
theorem pending_setWord_or {v u : Nat} (hlen : v / 64 < t.pba.length) : (t.setWord (v / 64)
      (t.pba.getD (v / 64) 0 ||| (1#64 <<< (v % 64)))).pending u
      = (t.pending u || decide (u = v)) := by
  unfold pending MsixTable.setWord
  simp only [List.getD_eq_getElem?_getD, List.getElem?_set]
  by_cases hw : v / 64 = u / 64
  · rw [if_pos hw, if_pos hlen, hw]
    have hm : u % 64 < 64 := Nat.mod_lt _ (by decide)
    have hbit : (1#64 <<< (v % 64)).getLsbD (u % 64) = decide (u = v) := by
      rw [BitVec.getLsbD_shiftLeft, BitVec.getLsbD_one]
      by_cases huv : u = v
      · subst huv
        simp [hm]
      · have hne : u % 64 ≠ v % 64 := by omega
        simp only [huv, decide_false]
        simp
        omega
    rw [Option.getD_some, BitVec.getLsbD_or, hbit]
  · rw [if_neg hw]
    have huv : u ≠ v := by
      intro h
      exact hw (by rw [h])
    simp [huv]

theorem pending_fire (h : Fits n t) (v u : Nat) :
    (t.pending u = true → (t.fire v).2.pending u = true) ∧
      ((t.fire v).2.pending u = true → t.pending u = true ∨ u = v) := by
  unfold MsixTable.fire
  split
  · exact ⟨id, .inl⟩
  rename_i e he
  split
  · exact ⟨id, .inl⟩
  split
  · have hlen : v / 64 < t.pba.length := by
      have hv := (List.getElem?_eq_some_iff.1 he).1
      rw [h.entries] at hv
      rw [h.words]
      omega
    rw [pending_setWord_or hlen, Bool.or_eq_true, decide_eq_true_eq]
    exact ⟨.inl, id⟩
  · exact ⟨id, .inl⟩

theorem Fits.takePending (h : Fits n t) (idx : Nat) : Fits n (t.takePending idx).2 := by
  unfold MsixTable.takePending
  split
  · exact h
  split
  · exact h
  split
  · exact h
  split
  · exact h
  · rename_i word hword
    split
    · exact h
    · apply h.setWord
      intro i hi hbit
      left
      rw [BitVec.getLsbD_and, Bool.and_eq_true] at hbit
      unfold pending
      have h₁ : (idx / 64 * 64 + i) / 64 = idx / 64 := by omega
      have h₂ : (idx / 64 * 64 + i) % 64 = i := by omega
      rw [h₁, h₂, List.getD_eq_getElem?_getD, hword]
      exact hbit.1

theorem Fits.drainOne {acc : List MsiMessage × MsixTable} (h : Fits n acc.2)
    (idx : Nat) : Fits n (MsixTable.drainOne acc idx).2 :=
  h.takePending idx

theorem Fits.foldl {β : Type} {f : List MsiMessage × MsixTable → β → List MsiMessage × MsixTable}
    (hf : ∀ acc b, Fits n acc.2 → Fits n (f acc b).2) :
    ∀ (bs : List β) (acc : List MsiMessage × MsixTable), Fits n acc.2 → Fits n (bs.foldl f acc).2
  | [], _, h => h
  | b :: bs, acc, h => Fits.foldl hf bs (f acc b) (hf acc b h)

theorem Fits.drainPending (h : Fits n t) : Fits n t.drainPending.2 := by
  apply Fits.foldl _ _ ([], t) h
  intro acc word hacc
  apply Fits.foldl _ _ acc hacc
  intro acc bit hacc
  exact hacc.drainOne _

theorem Fits.capWrite (h : Fits n t) (w : BitVec 16) : Fits n (t.capWrite w).2 := by
  exact Fits.drainPending ⟨h.entries, h.words, h.bits⟩

theorem Fits.tableWrite (h : Fits n t) (offset : Nat) (val : BitVec 32) :
    Fits n (t.tableWrite offset val).2 := by
  unfold MsixTable.tableWrite
  simp only []
  split
  · exact h
  · rename_i e he
    have h' : Fits n { t with
        entries := t.entries.set (offset / 16) (writeField e (offset % 16) val) } :=
      ⟨by simp [h.entries], h.words, h.bits⟩
    split
    · exact h'.takePending _
    · exact h'

theorem Fits.clearPending (h : Fits n t) : Fits n t.clearPending where
  entries := h.entries
  words := by simp [MsixTable.clearPending, h.words]
  bits v hv := by
    unfold pending MsixTable.clearPending at hv
    rw [replicate_getD_zero] at hv
    simp at hv

-- ==== round trips

/-- The two halves of a message address come back from the wire. -/
theorem importEntry_export (e : MsixEntry) : importEntry ⟨e.addr, e.data, e.control⟩ = e := by
  have hlo : e.addr.setWidth 32 = e.addrLo := by
    apply BitVec.eq_of_getLsbD_eq
    intro i hi
    simp [MsixEntry.addr, hi]
  have hhi : (e.addr >>> 32).setWidth 32 = e.addrHi := by
    apply BitVec.eq_of_getLsbD_eq
    intro i hi
    have h64 : 32 + i < 64 := by omega
    simp [MsixEntry.addr, hi, h64]
  unfold importEntry
  rw [hlo, hhi]

theorem pbaVectors_lt (h : Fits n t) {v : Nat} (hv : v ∈ pbaVectors t.pba) : v < n := by
  obtain ⟨⟨w, word⟩, hmem, hv⟩ := List.mem_flatMap.1 hv
  obtain ⟨i, hi, rfl⟩ := List.mem_map.1 hv
  obtain ⟨hi64, hbit⟩ := List.mem_filter.1 hi
  rw [List.mem_range] at hi64
  have hw : t.pba[word]? = some w := List.mem_zipIdx_iff_getElem?.1 hmem
  apply h.bits
  unfold pending
  have h₁ : (word * 64 + i) / 64 = word := by omega
  have h₂ : (word * 64 + i) % 64 = i := by omega
  rw [h₁, h₂, List.getD_eq_getElem?_getD, hw]
  exact hbit

/-- A table that fits passes the checks of the import, and comes back. -/
theorem importState_exportState {fresh : MsixTable} (h : Fits n t) (hf : Fits n fresh) :
    fresh.importState t.exportState = .ok t := by
  have hlen : (t.exportState).entries.length = fresh.entries.length := by
    simp [exportState, h.entries, hf.entries]
  have hpba : (t.exportState).pba.length = fresh.pba.length := by
    simp [exportState, h.words, hf.words]
  have hfind : (pbaVectors (t.exportState).pba).find? (fresh.entries.length ≤ ·) = none := by
    rw [List.find?_eq_none]
    intro v hv
    have hlt := pbaVectors_lt h hv
    rw [hf.entries]
    simp only [decide_eq_true_eq, Nat.not_le]
    exact hlt
  have hback : (t.exportState).entries.map importEntry = t.entries := by
    simp only [exportState, List.map_map]
    conv_rhs => rw [← List.map_id t.entries]
    exact List.map_congr_left fun e _ => importEntry_export e
  unfold importState
  rw [if_neg (by simp [hlen]), if_neg (by simp [hpba])]
  rw [hfind]
  simp only [hback]
  rfl

end MsixTable

end Rshyve.Virtio.Pci
