/-
# PRP walking

`vmm-storage/src/nvme/prp.rs`: the pages that a command's two PRP entries
name, one segment at a time. The masks of the source are remainders here. A
transfer takes segments until there are none: it pins the pages
(`prp_to_iovec`) or writes to them (`write_to_prp`). A write can change the
list that is being read, so each segment is read from the memory of its time.

# What the specification assigns

`Assigned` says which segments a transfer has, in the words of section 4.3 of
the specification that `prp.rs` cites: the rest of the page that PRP1 starts
in, then the page of PRP2, or the pages of the list at PRP2 (`FromList`). A
list ends with its page, and its last entry is the next list while more than
a page remains.
-/
import Rshyve.Nvme.Controller
import Rshyve.Data.Bytes

namespace Rshyve.Nvme

open Mem Conc

-- ==== the walk

def entriesPerList : Nat := pageSize / 8

def invalid (what : String) : IoError := ⟨.invalidInput, what⟩

inductive Next where
  | prp1
  | prp2
  | list (base idx : Nat)
  | done

structure PrpWalk where
  prp1 : Nat
  prp2 : Nat
  remain : Nat
  next : Next

namespace PrpWalk

def new (prp1 prp2 len : Nat) : PrpWalk :=
  ⟨prp1, prp2, len, if len = 0 then .done else .prp1⟩

def listEntry (m : GuestMem) (base idx : Nat) : Except IoError Nat :=
  match checkedAdd base (idx * 8) with
  | none => .error (invalid "PRP list address wraps")
  | some gpa => do return Bytes.ofLe (← m.read gpa 8)

/-- A segment, and the walk after it. -/
def segment (w : PrpWalk) (gpa len : Nat) (next : Next) :
    Except IoError (Option (Nat × Nat × PrpWalk)) :=
  .ok (some (gpa, len, { w with remain := w.remain - len, next := next }))

/-- The arm of `next_segment` for a list, with what it does at a chain. -/
def listSegment (w : PrpWalk) (m : GuestMem) (base idx : Nat)
    (chain : Nat → Except IoError (Option (Nat × Nat × PrpWalk))) :
    Except IoError (Option (Nat × Nat × PrpWalk)) := do
  let entry ← listEntry m base idx
  if entry % pageSize ≠ 0 then
    .error (invalid "PRP list entry has a page offset")
  else if w.remain ≤ pageSize then w.segment entry w.remain .done
  else if idx + 1 < entriesPerList then
    w.segment entry pageSize (.list base (idx + 1))
  else chain entry

def nextSegment (w : PrpWalk) (m : GuestMem) : Except IoError (Option (Nat × Nat × PrpWalk)) :=
  match w.next with
  | .done => .ok none
  | .prp1 =>
    if w.prp1 % 4 ≠ 0 then .error (invalid "PRP1 is not dword aligned")
    else
      let len := min (pageSize - w.prp1 % pageSize) w.remain
      let after := w.remain - len
      if after = 0 then w.segment w.prp1 len .done
      else if after ≤ pageSize then w.segment w.prp1 len .prp2
      else if w.prp2 % 8 ≠ 0 then
        .error (invalid "PRP list is not qword aligned")
      else
        w.segment w.prp1 len (.list (w.prp2 - w.prp2 % pageSize) (w.prp2 % pageSize / 8))
  | .prp2 =>
    if w.prp2 % pageSize ≠ 0 then .error (invalid "PRP2 has a page offset")
    else w.segment w.prp2 w.remain .done
  | .list base idx =>
    -- the first entry of a list is no chain, so there is one at most
    w.listSegment m base idx fun entry =>
      w.listSegment m entry 0 fun _ => .ok none

end PrpWalk

section

variable {σ : Type} (mem : σ → GuestMem) (act : σ → Nat → Nat → Except IoError σ)

/-- `act` on every segment. `none` is a walk that has not ended. -/
def eachSegment : Nat → PrpWalk → σ → Option (Except IoError σ)
  | 0, _, _ => none
  | n + 1, w, s =>
    match w.nextSegment (mem s) with
    | .error e => some (.error e)
    | .ok none => some (.ok s)
    | .ok (some (gpa, len, w)) =>
      match act s gpa len with
      | .error e => some (.error e)
      | .ok s => eachSegment n w s

end

/-- One round of the loop of `prp_to_iovec`. -/
def pin (m : GuestMem) (iov : List SubMapping) (gpa len : Nat) : Except IoError (List SubMapping) :=
  match m.space.lookup gpa len with
  | none => .error (invalid "PRP names unmapped memory")
  | some sub => .ok (iov ++ [sub])

def prpToIovec (m : GuestMem) (prp1 prp2 len : Nat) : Option (Except IoError (List SubMapping)) :=
  eachSegment (fun _ => m) (pin m) (len + 1) (.new prp1 prp2 len) []

/-- One round of the loop of `write_to_prp`, with the data that is left. -/
def copyOut : GuestMem × List UInt8 → Nat → Nat → Except IoError (GuestMem × List UInt8)
  | (m, data), gpa, len => do
    return (← m.write gpa (data.take len), data.drop len)

def writeToPrp (m : GuestMem) (prp1 prp2 : Nat) (data : List UInt8) :
    Option (Except IoError (GuestMem × List UInt8)) :=
  eachSegment Prod.fst copyOut (data.length + 1) (.new prp1 prp2 data.length) (m, data)

-- ==== the specification

/-- The entry at `a` names a page. -/
def Entry (m : GuestMem) (a page : Nat) : Prop :=
  m.read a 8 = .ok (peek m.bytes a 8) ∧ page = Bytes.ofLe (peek m.bytes a 8) ∧ page % pageSize = 0

section

variable {σ : Type} (mem : σ → GuestMem) (act : σ → Nat → Nat → Except IoError σ)

/-- The segments of the list at `a`, with `remain` bytes to go, and the states
they lead through. -/
inductive FromList : σ → Nat → Nat → List (Nat × Nat) → σ → Prop
  | last {s s' : σ} {a remain page : Nat} (hlast : remain ≤ pageSize)
      (hentry : Entry (mem s) a page) (hact : act s page remain = .ok s') :
      FromList s a remain [(page, remain)] s'
  | more {s s₁ s' : σ} {a remain page : Nat} {segs : List (Nat × Nat)}
      (hmore : pageSize < remain) (hin : (a + 8) % pageSize ≠ 0)
      (hentry : Entry (mem s) a page) (hact : act s page pageSize = .ok s₁)
      (hrest : FromList s₁ (a + 8) (remain - pageSize) segs s') :
      FromList s a remain ((page, pageSize) :: segs) s'
  | chain {s s' : σ} {a remain list : Nat} {segs : List (Nat × Nat)}
      (hmore : pageSize < remain) (hend : (a + 8) % pageSize = 0)
      (hentry : Entry (mem s) a list)
      (hrest : FromList s list remain segs s') :
      FromList s a remain segs s'

/-- The segments of a transfer of `len` bytes. -/
def Assigned (prp1 prp2 len : Nat) (s : σ) (segs : List (Nat × Nat)) (s' : σ) : Prop :=
  (len = 0 ∧ segs = [] ∧ s' = s) ∨
  (0 < len ∧ let first := min (pageSize - prp1 % pageSize) len
    ∃ s₁ rest, act s prp1 first = .ok s₁ ∧ segs = (prp1, first) :: rest ∧
      ((len = first ∧ rest = [] ∧ s' = s₁) ∨
      (len - first ≤ pageSize ∧ prp2 % pageSize = 0 ∧ first < len ∧
        rest = [(prp2, len - first)] ∧ act s₁ prp2 (len - first) = .ok s') ∨
      (pageSize < len - first ∧ prp2 % 8 = 0 ∧ FromList mem act s₁ prp2 (len - first) rest s')))

end

-- ==== the walk takes what is assigned

theorem listEntry_eq_ok {m : GuestMem} {base idx page : Nat}
    (h : PrpWalk.listEntry m base idx = .ok page) (hpage : page % pageSize = 0) :
    Entry m (base + 8 * idx) page := by
  unfold PrpWalk.listEntry at h
  split at h
  · cases h
  next gpa hgpa =>
    obtain ⟨rfl, -⟩ := checkedAdd_some hgpa
    obtain ⟨bytes, hread, h⟩ := bind_eq_ok.mp h
    obtain ⟨-, -, hbytes⟩ := bind_eq_ok.mp hread
    obtain rfl := Except.ok.inj hbytes
    obtain rfl := Except.ok.inj h
    rw [Nat.mul_comm 8 idx]
    exact ⟨hread, rfl, hpage⟩

theorem ends_page {base idx : Nat} (hbase : base % pageSize = 0) (hidx : idx < entriesPerList) :
    (base + 8 * idx + 8) % pageSize = 0 ↔ idx + 1 = entriesPerList := by
  have hentries : entriesPerList = 512 := rfl
  rw [hentries] at hidx ⊢
  unfold pageSize at hbase ⊢
  omega

variable {segs : List (Nat × Nat)}

section

variable {σ : Type} {mem : σ → GuestMem}
  {act : σ → Nat → Nat → Except IoError σ} {w : PrpWalk} {s : σ} {n : Nat}

/-- The loop ends, and when it ends well then with the state `P` allows. -/
def EndsIn (r : Option (Except IoError σ)) (P : σ → Prop) : Prop :=
  ∃ x, r = some x ∧ ∀ s', x = .ok s' → P s'

variable {P : σ → Prop}

theorem EndsIn.error {e : IoError} : EndsIn (some (.error e)) P := ⟨_, rfl, nofun⟩

theorem EndsIn.mono {r : Option (Except IoError σ)} {Q : σ → Prop}
    (h : EndsIn r P) (hPQ : ∀ s, P s → Q s) : EndsIn r Q := by
  obtain ⟨x, hx, hP⟩ := h
  exact ⟨x, hx, fun s' hs' => hPQ s' (hP s' hs')⟩

variable {gpa len : Nat}

/-- A round that has a segment: its action, and the rest. -/
theorem endsIn_segment {next : Next} (hseg : w.nextSegment (mem s) = w.segment gpa len next)
    (h : ∀ s₁, act s gpa len = .ok s₁ → EndsIn (eachSegment mem act n
        { w with remain := w.remain - len, next := next } s₁) P) :
    EndsIn (eachSegment mem act (n + 1) w s) P := by
  unfold eachSegment
  rw [hseg]
  unfold PrpWalk.segment
  dsimp only
  cases hact : act s gpa len with
  | error e => exact .error
  | ok s₁ => exact h s₁ hact

theorem endsIn_done (hdone : w.next = .done) (h : P s) :
    EndsIn (eachSegment mem act (n + 1) w s) P := by
  unfold eachSegment PrpWalk.nextSegment
  rw [hdone]
  exact ⟨_, rfl, fun s' hs' => by cases hs'; exact h⟩

/-- PRP2 as a page, which is the last one. -/
theorem endsIn_prp2 (hnext : w.next = .prp2) : EndsIn (eachSegment mem act (n + 2) w s) fun s' =>
      w.prp2 % pageSize = 0 ∧ act s w.prp2 w.remain = .ok s' := by
  have hseg (m : GuestMem) : w.nextSegment m =
      if w.prp2 % pageSize ≠ 0 then .error (invalid "PRP2 has a page offset")
      else w.segment w.prp2 w.remain .done := by
    unfold PrpWalk.nextSegment
    rw [hnext]
  split at hseg
  next =>
    unfold eachSegment
    rw [hseg]
    exact .error
  next halign =>
    refine endsIn_segment (hseg _) fun s₁ hact => ?_
    exact endsIn_done rfl ⟨Decidable.not_not.mp halign, hact⟩

/-- What is left of the list at `base` from entry `idx` on. -/
theorem endsIn_listSegment {base idx : Nat}
    {chain : Nat → Except IoError (Option (Nat × Nat × PrpWalk))}
    (hbase : base % pageSize = 0) (hidx : idx < entriesPerList)
    (hpos : 0 < w.remain) (hfuel : w.remain ≤ n)
    (hseg : w.nextSegment (mem s) = w.listSegment (mem s) base idx chain)
    (hlist : ∀ (w' : PrpWalk) (s₁ : σ) (base' idx' : Nat), w'.remain < w.remain →
      0 < w'.remain → w'.next = .list base' idx' → base' % pageSize = 0 →
      idx' < entriesPerList →
      EndsIn (eachSegment mem act n w' s₁) fun s' => ∃ segs,
        FromList mem act s₁ (base' + 8 * idx') w'.remain segs s')
    (hchain : ∀ list, idx + 1 = entriesPerList → pageSize < w.remain →
      list % pageSize = 0 → w.nextSegment (mem s) = chain list →
      EndsIn (eachSegment mem act (n + 1) w s) fun s' => ∃ segs,
        FromList mem act s list w.remain segs s') :
    EndsIn (eachSegment mem act (n + 1) w s) fun s' => ∃ segs,
      FromList mem act s (base + 8 * idx) w.remain segs s' := by
  unfold PrpWalk.listSegment at hseg
  cases hentry : PrpWalk.listEntry (mem s) base idx with
  | error e =>
    rw [hentry] at hseg
    unfold eachSegment
    rw [hseg]
    exact .error
  | ok page =>
    rw [hentry] at hseg
    simp only [Except.bind, bind] at hseg
    split at hseg
    next =>
      unfold eachSegment
      rw [hseg]
      exact .error
    next halign =>
    have halign : page % pageSize = 0 := Decidable.not_not.mp halign
    have hnamed := listEntry_eq_ok hentry halign
    split at hseg
    next hlast =>
      refine endsIn_segment hseg fun s₁ hact => ?_
      obtain ⟨n', rfl⟩ : ∃ n', n = n' + 1 := ⟨n - 1, by omega⟩
      exact endsIn_done rfl ⟨_, .last hlast hnamed hact⟩
    next hmore =>
    have hmore : pageSize < w.remain := Nat.not_le.mp hmore
    have hpage : 0 < pageSize := by decide
    split at hseg
    next hin =>
      refine endsIn_segment hseg fun s₁ hact => ?_
      have hless : w.remain - pageSize < w.remain := Nat.sub_lt hpos hpage
      have hleft : 0 < w.remain - pageSize := Nat.sub_pos_of_lt hmore
      refine (hlist { w with
        remain := w.remain - pageSize, next := .list base (idx + 1) }
        s₁ base (idx + 1) hless hleft rfl hbase hin).mono ?_
      rintro s' ⟨segs, hsegs⟩
      have hnot := (ends_page hbase hidx).not.mpr (Nat.ne_of_lt hin)
      rw [Nat.mul_succ, ← Nat.add_assoc] at hsegs
      exact ⟨_, .more hmore hnot hnamed hact hsegs⟩
    next hend =>
      have hidx' : idx + 1 = entriesPerList := by omega
      refine (hchain page hidx' hmore halign hseg).mono ?_
      rintro s' ⟨segs, hsegs⟩
      have hends := (ends_page hbase hidx).mpr hidx'
      exact ⟨segs, .chain hmore hends hnamed hsegs⟩

/-- A walk in a list takes its segments and ends. -/
theorem endsIn_list (n : Nat) (w : PrpWalk) (s : σ) (base idx : Nat)
    (hfuel : w.remain < n) (hpos : 0 < w.remain) (hnext : w.next = .list base idx)
    (hbase : base % pageSize = 0) (hidx : idx < entriesPerList) :
    EndsIn (eachSegment mem act n w s) fun s' => ∃ segs,
      FromList mem act s (base + 8 * idx) w.remain segs s' := by
  induction n generalizing w s base idx with
  | zero => omega
  | succ n ih =>
    have hrest (w' : PrpWalk) (s₁ : σ) (base' idx' : Nat)
        (hless : w'.remain < w.remain) := ih w' s₁ base' idx' (by omega)
    have hseg : w.nextSegment (mem s) = w.listSegment (mem s) base idx
        fun entry => w.listSegment (mem s) entry 0 fun _ => .ok none := by
      unfold PrpWalk.nextSegment
      rw [hnext]
    refine endsIn_listSegment hbase hidx hpos (by omega) hseg hrest fun list _ _ hlist hchain => ?_
    -- the first entry of the next list is no chain
    refine endsIn_listSegment hlist (by decide) hpos (by omega) hchain hrest ?_
    intro _ hone
    exact absurd hone (by decide)

/-- A transfer ends, and takes the segments assigned to it. -/
theorem endsIn_transfer (prp1 prp2 len : Nat) (s : σ) :
    EndsIn (eachSegment mem act (len + 1) (.new prp1 prp2 len) s) fun s' =>
      ∃ segs, Assigned mem act prp1 prp2 len s segs s' := by
  by_cases hlen : len = 0
  · subst hlen
    exact endsIn_done rfl ⟨[], .inl ⟨rfl, rfl, rfl⟩⟩
  have hpos : 0 < len := Nat.pos_of_ne_zero hlen
  have hnew : PrpWalk.new prp1 prp2 len = ⟨prp1, prp2, len, .prp1⟩ := by
    unfold PrpWalk.new
    rw [if_neg hlen]
  rw [hnew]
  have hfirst : 0 < min (pageSize - prp1 % pageSize) len := by
    have hoff := Nat.mod_lt prp1 (show 0 < pageSize by decide)
    omega
  have hle : min (pageSize - prp1 % pageSize) len ≤ len := Nat.min_le_right _ _
  have hnext (m : GuestMem) :=
    show PrpWalk.nextSegment ⟨prp1, prp2, len, .prp1⟩ m = ite _ _ _ from rfl
  dsimp only at hnext
  -- the action on the first segment, whatever comes after it
  have hcons {s₁ s' : σ} {segs : List (Nat × Nat)}
      (hact : act s prp1 (min (pageSize - prp1 % pageSize) len) = .ok s₁)
      (hrest) : ∃ segs, Assigned mem act prp1 prp2 len s segs s' :=
    ⟨_ :: segs, .inr ⟨hpos, s₁, segs, hact, rfl, hrest⟩⟩
  split at hnext
  next =>
    unfold eachSegment
    rw [hnext]
    exact .error
  next =>
  split at hnext
  next hall =>
    refine endsIn_segment (hnext _) fun s₁ hact => ?_
    obtain ⟨n, rfl⟩ : ∃ n, len = n + 1 := ⟨len - 1, by omega⟩
    exact endsIn_done rfl (hcons hact (.inl ⟨by omega, rfl, rfl⟩))
  next hrest =>
  split at hnext
  next htwo =>
    refine endsIn_segment (hnext _) fun s₁ hact => ?_
    obtain ⟨n, hn⟩ : ∃ n, len = n + 2 := ⟨len - 2, by omega⟩
    have hend : EndsIn (eachSegment mem act (n + 2)
        ⟨prp1, prp2, len - min (pageSize - prp1 % pageSize) len, .prp2⟩ s₁) _ :=
      endsIn_prp2 rfl
    rw [← hn] at hend
    refine hend.mono fun s' ⟨halign, hact'⟩ => ?_
    exact hcons hact (.inr (.inl ⟨htwo, halign, by omega, rfl, hact'⟩))
  next hmore =>
  split at hnext
  next =>
    unfold eachSegment
    rw [hnext]
    exact .error
  next halign =>
    refine endsIn_segment (hnext _) fun s₁ hact => ?_
    have halign : prp2 % 8 = 0 := Decidable.not_not.mp halign
    have haddr : prp2 - prp2 % pageSize + 8 * (prp2 % pageSize / 8) = prp2 ∧
        (prp2 - prp2 % pageSize) % pageSize = 0 ∧
        prp2 % pageSize / 8 < entriesPerList := by
      have hentries : entriesPerList = 512 := rfl
      rw [hentries]
      unfold pageSize
      omega
    refine (endsIn_list _ _ s₁ _ _ ?_ ?_ rfl haddr.2.1 haddr.2.2).mono ?_
    · dsimp only
      omega
    · dsimp only
      omega
    · rintro s' ⟨segs, hsegs⟩
      rw [haddr.1] at hsegs
      exact hcons hact (.inr (.inr ⟨Nat.not_le.mp hmore, halign, hsegs⟩))

-- ==== what is assigned

/-- The segments make up `len` bytes, each inside one page. -/
def Cover (len : Nat) (segs : List (Nat × Nat)) : Prop :=
  (segs.map Prod.snd).sum = len ∧ ∀ x ∈ segs, 0 < x.2 ∧ x.1 % pageSize + x.2 ≤ pageSize

theorem Cover.cons {rest : Nat} (hpos : 0 < len)
    (hin : gpa % pageSize + len ≤ pageSize) (h : Cover rest segs) :
    Cover (len + rest) ((gpa, len) :: segs) := by
  refine ⟨?_, List.forall_mem_cons.mpr ⟨⟨hpos, hin⟩, h.2⟩⟩
  rw [List.map_cons, List.sum_cons, h.1]

/-- A whole page or a part of it from its start. -/
theorem Cover.page {page rest : Nat} (halign : page % pageSize = 0)
    (hpos : 0 < len) (hle : len ≤ pageSize) (h : Cover rest segs) :
    Cover (len + rest) ((page, len) :: segs) :=
  .cons hpos (by rw [halign, Nat.zero_add]; exact hle) h

theorem cover_nil : Cover 0 [] := ⟨rfl, nofun⟩

/-- The actions on `segs`, one after the other. -/
def Takes (act : σ → Nat → Nat → Except IoError σ) (s : σ)
    (segs : List (Nat × Nat)) (s' : σ) : Prop :=
  segs.foldlM (fun s x => act s x.1 x.2) s = .ok s'

theorem takes_cons {s₁ s' : σ} (hact : act s gpa len = .ok s₁)
    (h : Takes act s₁ segs s') : Takes act s ((gpa, len) :: segs) s' := by
  unfold Takes
  rw [List.foldlM_cons, hact]
  exact h

theorem FromList.sound {s' : σ} {a remain : Nat}
    (h : FromList mem act s a remain segs s') (hpos : 0 < remain) :
    Cover remain segs ∧ Takes act s segs s' := by
  induction h with
  | last hlast hentry hact =>
    exact ⟨.page hentry.2.2 hpos hlast cover_nil, takes_cons hact rfl⟩
  | more hmore _ hentry hact _ ih =>
    obtain ⟨hcover, htakes⟩ := ih (Nat.sub_pos_of_lt hmore)
    refine ⟨?_, takes_cons hact htakes⟩
    rw [← Nat.add_sub_cancel' (Nat.le_of_lt hmore)]
    exact .page hentry.2.2 (by decide) (Nat.le_refl _) hcover
  | chain _ _ _ _ ih => exact ih hpos

theorem Assigned.sound {s' : σ} {prp1 prp2 : Nat} (h : Assigned mem act prp1 prp2 len s segs s') :
    Cover len segs ∧ Takes act s segs s' := by
  rcases h with ⟨rfl, rfl, rfl⟩ | ⟨hpos, s₁, rest, hact, rfl, hrest⟩
  · exact ⟨cover_nil, rfl⟩
  have hoff := Nat.mod_lt prp1 (show 0 < pageSize by decide)
  have hle : min (pageSize - prp1 % pageSize) len ≤ len := Nat.min_le_right _ _
  have hrest : Cover (len - min (pageSize - prp1 % pageSize) len) rest ∧ Takes act s₁ rest s' := by
    rcases hrest with ⟨hall, rfl, rfl⟩ | ⟨htwo, halign, hless, rfl, hact'⟩ | ⟨hmore, -, hlist⟩
    · rw [← hall, Nat.sub_self]
      exact ⟨cover_nil, rfl⟩
    · exact ⟨.page halign (Nat.sub_pos_of_lt hless) htwo cover_nil, takes_cons hact' rfl⟩
    · exact hlist.sound (Nat.lt_trans (by decide) hmore)
  refine ⟨?_, takes_cons hact hrest.2⟩
  have hcover : Cover (_ + _) ((prp1, min (pageSize - prp1 % pageSize) len) :: rest) :=
    .cons (by omega) (by omega) hrest.1
  rwa [Nat.add_sub_cancel' hle] at hcover

end

/-- The pinned pages are the views of the segments, in order. -/
theorem pin_takes {m : GuestMem} {iov iov' : List SubMapping} (h : Takes (pin m) iov segs iov') :
    iov'.map some = iov.map some ++ segs.map fun x => m.space.lookup x.1 x.2 := by
  induction segs generalizing iov with
  | nil =>
    cases h
    exact (List.append_nil _).symm
  | cons x segs ih =>
    unfold Takes at h
    rw [List.foldlM_cons] at h
    obtain ⟨iov₁, hpin, h⟩ := bind_eq_ok.mp h
    unfold pin at hpin
    split at hpin
    · cases hpin
    next sub hsub =>
      cases hpin
      simp [ih h, hsub]

/-- They are as long as the segments. -/
theorem sum_of_views {m : GuestMem} {iov : List SubMapping}
    (h : iov.map some = segs.map fun x => m.space.lookup x.1 x.2) :
    (iov.map SubMapping.len).sum = (segs.map Prod.snd).sum := by
  induction segs generalizing iov with
  | nil => simp_all
  | cons x segs ih =>
    cases iov with
    | nil => cases h
    | cons v iov =>
      obtain ⟨hv, hrest⟩ := List.cons.inj h
      rw [List.map_cons, List.map_cons, List.sum_cons, List.sum_cons, ih hrest,
        lookup_len hv.symm]

/-- The pages of a transfer: the segments that are assigned to it, and their
views. -/
def Pinned (m : GuestMem) (prp1 prp2 len : Nat) (iov : List SubMapping) : Prop :=
  ∃ segs, Assigned (fun _ => m) (pin m) prp1 prp2 len [] segs iov ∧
    Cover len segs ∧ (iov.map some = segs.map fun x => m.space.lookup x.1 x.2) ∧
    (iov.map SubMapping.len).sum = len

theorem endsIn_prpToIovec (m : GuestMem) (prp1 prp2 len : Nat) :
    EndsIn (prpToIovec m prp1 prp2 len) (Pinned m prp1 prp2 len) := by
  refine (endsIn_transfer prp1 prp2 len []).mono ?_
  rintro iov ⟨segs, hsegs⟩
  obtain ⟨hcover, htakes⟩ := hsegs.sound
  have hviews : iov.map some = _ := pin_takes htakes
  exact ⟨segs, hsegs, hcover, hviews, (sum_of_views hviews).trans hcover.1⟩

-- ==== the backing store

/-- What a request has asked of the backing store, the last first. A transfer
has its pages, its offset and the bytes that were moved. -/
inductive Access where
  | read (iov : List SubMapping) (offset : Nat) (n : Option Nat)
  | write (iov : List SubMapping) (offset : Nat) (n : Option Nat)
  | sync (ok : Bool)

/-- The bytes of the namespace that a request names. -/
def inNamespace (dev : Device) (offset len : Nat) : Prop :=
  offset + len ≤ dev.totalBlocks * dev.blockSize

/-- A request over guest memory `m`: its pages are pinned by the walk, and it
reaches the backing store inside the namespace only. -/
def transferRules (dev : Device) (m : GuestMem) :
    Discipline Op Ans (List Access) where
  allow _
    | .prpToIovec .. | .sync => True
    | .readAt iov offset | .writeAt iov offset =>
      inNamespace dev offset (iov.map SubMapping.len).sum
    | _ => False
  can _
    | .prpToIovec prp1 prp2 len, iov =>
      (prpToIovec m prp1.toNat prp2.toNat len).bind Except.toOption = iov
    | _, _ => True
  next log
    | .readAt iov offset, n => .read iov offset n :: log
    | .writeAt iov offset, n => .write iov offset n :: log
    | .sync, ok => .sync ok :: log
    | _, _ => log

/-- What a request that was answered with success has done: a read or a write
has moved all its bytes between the pages assigned to it and its blocks, with
a flush after a write that forces unit access, and a flush is a flush. -/
def Served (dev : Device) (m : GuestMem) (req : IoRequest)
    (log : List Access) : Prop :=
  let len := req.nlb * dev.blockSize
  let offset := req.slba * dev.blockSize
  (req.opcode = nvmOpcRead ∧ ∃ iov,
    Pinned m req.prp1.toNat req.prp2.toNat len iov ∧
      log = [.read iov offset (some len)]) ∨
  (req.opcode = nvmOpcWrite ∧ dev.readOnly = false ∧ ∃ iov,
    Pinned m req.prp1.toNat req.prp2.toNat len iov ∧
      log = (if req.fua then [.sync true] else []) ++
        [.write iov offset (some len)]) ∨
  (req.opcode = nvmOpcFlush ∧ log = [.sync true])

section

variable {dev : Device} {m : GuestMem} {R : Type}
  {Q : List Access → R → Prop} {log : List Access}

/-- Pinning answers nothing, or the pages of the transfer. -/
theorem keeps_pinned {prp1 prp2 : BitVec 64} {len : Nat}
    {f : Option (List SubMapping) → Prog R}
    (hnone : (transferRules dev m).Keeps (f none) Q log)
    (hsome : ∀ iov, Pinned m prp1.toNat prp2.toNat len iov →
      (transferRules dev m).Keeps (f (some iov)) Q log) :
    (transferRules dev m).Keeps (step (.prpToIovec prp1 prp2 len) >>= f) Q log := by
  refine Discipline.Keeps.seq ⟨trivial, fun answer hanswer => ?_⟩
  cases answer with
  | none => exact hnone
  | some iov =>
    obtain ⟨x, hx, hpinned⟩ := endsIn_prpToIovec m prp1.toNat prp2.toNat len
    have hok : (some x).bind Except.toOption = some iov := hx ▸ hanswer
    cases x with
    | error e => cases hok
    | ok iov' =>
      cases hok
      exact hsome _ (hpinned _ rfl)

/-- A flush ends a request. -/
theorem keeps_sync {P : List Access → BitVec 16 → Prop}
    (hok : P (.sync true :: log) scSuccess)
    (herr : P (.sync false :: log) scInternalError) :
    (transferRules dev m).Keeps (do
      if ← step .sync then pure scSuccess else pure scInternalError) P log := by
  refine Discipline.Keeps.seq ⟨trivial, fun ok _ => ?_⟩
  cases ok with
  | true => exact hok
  | false => exact herr

end

theorem keeps_processIoRequest (dev : Device) (m : GuestMem) (req : IoRequest) :
    (transferRules dev m).Keeps (processIoRequest dev req)
      (fun log status => status = scSuccess → Served dev m req log) [] := by
  refine Discipline.keeps_ite (fun _ => nofun) fun _ => ?_
  refine Discipline.keeps_ite (fun _ => nofun) fun _ => ?_
  refine Discipline.keeps_ite (fun _ => nofun) fun _ => ?_
  refine Discipline.keeps_ite (fun _ => nofun) fun hend => ?_
  have hin : inNamespace dev (req.slba * dev.blockSize)
      (req.nlb * dev.blockSize) := by
    rw [Decidable.not_not, Option.any_eq_true] at hend
    obtain ⟨stop, hstop, hle⟩ := hend
    obtain ⟨rfl, -⟩ := checkedAdd_some hstop
    unfold inNamespace
    rw [← Nat.add_mul]
    exact Nat.mul_le_mul_right _ (of_decide_eq_true hle)
  have hallow {iov : List SubMapping} (hiov : Pinned m req.prp1.toNat
      req.prp2.toNat (req.nlb * dev.blockSize) iov) :
      inNamespace dev (req.slba * dev.blockSize) (iov.map SubMapping.len).sum := by
    obtain ⟨-, -, -, -, hsum⟩ := hiov
    rwa [hsum]
  refine Discipline.keeps_ite (fun hread => ?_) fun _ => ?_
  · refine keeps_pinned nofun fun iov hiov => ?_
    refine Discipline.Keeps.seq ⟨hallow hiov, fun n _ => ?_⟩
    refine Discipline.keeps_ite (fun hn _ => ?_) fun _ => nofun
    cases hn
    exact .inl ⟨hread, iov, hiov, rfl⟩
  refine Discipline.keeps_ite (fun hwrite => ?_) fun _ => ?_
  · refine Discipline.keeps_ite (fun _ => nofun) fun hro => ?_
    have hro : dev.readOnly = false := Bool.eq_false_iff.mpr hro
    refine keeps_pinned nofun fun iov hiov => ?_
    refine Discipline.Keeps.seq ⟨hallow hiov, fun n _ => ?_⟩
    refine Discipline.keeps_ite (fun hn => ?_) fun _ => nofun
    cases hn
    refine Discipline.keeps_ite (fun hfua => keeps_sync (fun _ => ?_) nofun)
      fun hfua _ => ?_
    · exact .inr (.inl ⟨hwrite, hro, iov, hiov, by rw [if_pos hfua]; rfl⟩)
    · exact .inr (.inl ⟨hwrite, hro, iov, hiov, by rw [if_neg hfua]; rfl⟩)
  exact Discipline.keeps_ite
    (fun hflush => keeps_sync (fun _ => .inr (.inr ⟨hflush, rfl⟩)) nofun)
    fun _ => nofun

-- ==== a transfer

/-- For every memory, PRP pair and length: pinning the pages ends, in an error
or with the views of the segments assigned to the transfer, which make up its
length, each in one page. So does writing data to them, where each entry of a
list is read when its turn comes. A request reaches the backing store inside
the namespace only, and one that was answered with success has moved its
bytes between its own blocks and the pages assigned to it. -/
theorem prp_transfer (m : GuestMem) (prp1 prp2 : Nat) :
    (∀ len, EndsIn (prpToIovec m prp1 prp2 len) fun iov => ∃ segs,
      Assigned (fun _ => m) (pin m) prp1 prp2 len [] segs iov ∧
        Cover len segs ∧
        (iov.map some = segs.map fun x => m.space.lookup x.1 x.2) ∧
        (iov.map SubMapping.len).sum = len) ∧
    (∀ data, EndsIn (writeToPrp m prp1 prp2 data) fun r => ∃ segs,
      Assigned Prod.fst copyOut prp1 prp2 data.length (m, data) segs r ∧
        Cover data.length segs ∧ Takes copyOut (m, data) segs r) ∧
    ∀ dev req, (transferRules dev m).Keeps (processIoRequest dev req)
      (fun log status => status = scSuccess → Served dev m req log) [] := by
  refine ⟨endsIn_prpToIovec m prp1 prp2, fun data => ?_,
    fun dev => keeps_processIoRequest dev m⟩
  refine (endsIn_transfer prp1 prp2 data.length (m, data)).mono ?_
  rintro r ⟨segs, hsegs⟩
  exact ⟨segs, hsegs, hsegs.sound⟩

end Rshyve.Nvme
