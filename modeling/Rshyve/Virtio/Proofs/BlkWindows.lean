/-
# Windows of a request

A request moves through the bounce buffer one window at a time, and a window
cuts across the data segments of its direction. `walkFrom_rule` is the
invariant rule of that walk: whatever each visit does, a walk that returns
has visited the addresses of its window, in order and without a gap, and
each visit was told the number of bytes before it. `scatter_spec` and
`gather_spec` are its two uses.
-/
import Rshyve.Data.Pour
import Rshyve.Virtio.BlkData

namespace Rshyve.Virtio.Blk

open Rshyve.Mem Pour

-- ==== peeks and pokes

theorem peek_eq_map (bytes : Nat → UInt8) (a n : Nat) :
    peek bytes a n = (List.range' a n).map bytes := by
  unfold peek
  rw [List.range_eq_range', ← Nat.add_zero a, ← List.map_add_range', List.map_map]
  rfl

theorem peek_add (bytes : Nat → UInt8) (a n m : Nat) :
    peek bytes a (n + m) = peek bytes a n ++ peek bytes (a + n) m := by
  rw [peek_eq_map, peek_eq_map, peek_eq_map, ← List.map_append, List.range'_append_1]

/-- What was copied is there. -/
theorem peek_poke_peek (bytes src : Nat → UInt8) (a b n : Nat) :
    peek (poke bytes a (peek src b n)) a n = peek src b n := by
  conv_lhs => arg 3; rw [← peek_length src b n]
  exact peek_poke_self

theorem poke_cons (bytes : Nat → UInt8) (a : Nat) (b : UInt8) (data : List UInt8) :
    poke bytes a (b :: data) = poke (Function.update bytes a b) (a + 1) data := by
  funext x
  unfold poke
  rcases Nat.lt_trichotomy x a with h | h | h
  · rw [if_neg (by omega), if_neg (by omega), Function.update_of_ne (by omega)]
  · subst h
    simp
  · have hx : x - a = x - (a + 1) + 1 := by omega
    rw [if_pos (by omega), if_pos (by omega), hx, List.getElem?_cons_succ,
      Function.update_of_ne (by omega)]

/-- A poke is a pour over consecutive addresses. -/
theorem poke_eq_pour (bytes : Nat → UInt8) (a : Nat) (data : List UInt8) :
    poke bytes a data = pour bytes (List.range' a data.length) data := by
  induction data generalizing bytes a with
  | nil =>
    funext x
    simp [poke]
  | cons b data ih =>
    rw [poke_cons, ih, List.length_cons, List.range'_succ]
    rfl

theorem poke_append (bytes : Nat → UInt8) (a : Nat) (xs ys : List UInt8) :
    poke bytes a (xs ++ ys) = poke (poke bytes a xs) (a + xs.length) ys := by
  rw [poke_eq_pour, poke_eq_pour bytes a xs, poke_eq_pour,
    ← pour_append bytes (by simp), List.length_append, List.range'_append_1]

-- ==== the walk

theorem take_range' (a n k : Nat) : (List.range' a n).take k = List.range' a (min k n) := by
  rcases Nat.le_total k n with h | h
  · rw [Nat.min_eq_left h]
    conv_lhs => rw [← Nat.add_sub_cancel' h, ← List.range'_append_1]
    rw [List.take_left' (by simp)]
  · rw [Nat.min_eq_right h, List.take_of_length_le (by simpa using h)]

theorem window_range' (a n off k : Nat) :
    window (List.range' a n) off k = List.range' (a + off) (min k (n - off)) := by
  unfold window
  rw [List.drop_range', Nat.mul_one, take_range']

variable {offset len : Nat}

/-- The window over a segment that is neither before nor behind it, and what
of the window is left for the segments after it. -/
theorem window_segment {stop start addr : Nat} {rest : List Nat}
    (hbefore : offset < start + len) (hbehind : start < stop) :
    window (List.range' addr len ++ rest) (offset - start) (stop - max offset start)
      = List.range' (addr + (offset - start)) (min stop (start + len) - max offset start)
        ++ window rest (offset - (start + len)) (stop - max offset (start + len)) := by
  rw [window_append (by simp; omega), window_range', List.length_range']
  congr 2
  · omega
  · omega
  · omega

theorem dataSegments_subset {chain data : List ChainBuf}
    (h : dataSegments chain = some data) : data ⊆ chain := by
  unfold dataSegments at h
  split at h
  · cases h
  · split at h
    · cases h
    · cases h
      exact fun b hb => List.mem_of_mem_take (List.mem_of_mem_drop hb)

/-- The bytes of the segments are those at their addresses. -/
theorem segmentBytes_eq (bytes : Nat → UInt8) (chain : List ChainBuf) (writable : Bool) :
    segmentBytes bytes chain writable = (dataAddrs chain writable).map bytes := by
  unfold segmentBytes dataAddrs
  induction (dataSegments chain).getD [] with
  | nil => rfl
  | cons b bs ih =>
    unfold addrsOf
    by_cases hdir : b.isWritable = writable
    · rw [if_pos hdir, List.map_append, ← ih, ← peek_eq_map]
      simp [hdir]
    · rw [if_neg hdir, ← ih]
      simp [hdir]

variable {chain : List ChainBuf}

section

variable {σ : Type} {writable : Bool} {offset stop : Nat} {visit : Nat → Nat → Nat → σ → σ × Bool}

variable {I : List Nat → σ → Prop} {data : List ChainBuf} {start covered : Nat} {s s' : σ}

/-- The invariant rule of a walk. `I` holds of the addresses visited so far
and the state; a visit is told how many those are. -/
theorem walkFrom_rule (hvisit : ∀ b ∈ chain, b.isWritable = writable → ∀ gpa n done s s', b.addr ≤
      gpa → gpa + n ≤ b.addr + b.len → I done s → visit gpa done.length n s =
      (s', true) → I (done ++ List.range' gpa n) s') (hle : offset ≤ stop) (hdata : data ⊆ chain)
    {done : List Nat} {c : Nat} (hcov : covered = done.length)
    (hat : done.length = min stop (max offset start) - offset) (hI : I done s)
    (hwalk : walkFrom writable offset stop visit start covered data s = (s', some c)) :
    let seen := done ++ window (addrsOf writable data) (offset - start) (stop - max offset start)
    I seen s' ∧ c = seen.length := by
  induction data generalizing start covered done s with
  | nil =>
    cases hwalk
    simpa [addrsOf, window, hcov] using hI
  | cons b bs ih =>
    have hbs : bs ⊆ chain := fun x hx => hdata (List.mem_cons_of_mem b hx)
    unfold walkFrom at hwalk
    by_cases hdir : b.isWritable = writable
    case neg =>
      rw [if_pos hdir] at hwalk
      rw [addrsOf, if_neg hdir]
      exact ih hbs hcov hat hI hwalk
    rw [if_neg (not_not.2 hdir)] at hwalk
    rw [addrsOf, if_pos hdir]
    cases hfin : checkedAdd start b.len with
    | none =>
      rw [hfin] at hwalk
      cases hwalk
    | some fin =>
      obtain ⟨rfl, -⟩ := checkedAdd_some hfin
      simp only [hfin] at hwalk
      by_cases hout : start + b.len ≤ offset ∨ start ≥ stop
      · -- the segment lies before the window or behind it
        rw [if_pos hout] at hwalk
        have hnext := ih hbs hcov (by omega) hI hwalk
        rcases hout with hbefore | hbehind
        · rw [window_append_of_le (by simp; omega), List.length_range', Nat.sub_sub]
          have hmax : max offset start = max offset (start + b.len) := by
            omega
          rwa [hmax]
        · have hz : stop - max offset start = 0 := by omega
          have hz' : stop - max offset (start + b.len) = 0 := by omega
          rw [hz, window_zero]
          rwa [hz', window_zero] at hnext
      · rw [if_neg hout] at hwalk
        rw [window_segment (by omega) (by omega), ← List.append_assoc]
        by_cases hempty : min stop (start + b.len) = max offset start
        · -- a window of no bytes
          rw [if_pos hempty] at hwalk
          rw [hempty, Nat.sub_self, List.range'_zero, List.append_nil]
          exact ih hbs hcov (by omega) hI hwalk
        · rw [if_neg hempty] at hwalk
          cases hgpa : checkedAdd b.addr (max offset start - start) with
          | none =>
            rw [hgpa] at hwalk
            cases hwalk
          | some gpa =>
            obtain ⟨rfl, -⟩ := checkedAdd_some hgpa
            simp only [hgpa] at hwalk
            have hlen : max offset start - offset = done.length := by
              omega
            rw [hlen] at hwalk
            have hgo : max offset start - start = offset - start := by
              omega
            rw [hgo] at hwalk
            rcases hv : visit (b.addr + (offset - start)) done.length
              (min stop (start + b.len) - max offset start) s with
              ⟨t, ok⟩
            rw [hv] at hwalk
            cases ok with
            | false => cases hwalk
            | true =>
              have hstep := hvisit b (hdata List.mem_cons_self) hdir
                _ _ done s t (by omega) (by omega) hI hv
              refine ih hbs ?_ ?_ hstep hwalk
              · simp only [List.length_append, List.length_range']
                omega
              · simp only [List.length_append, List.length_range']
                omega

/-- What every visit keeps, a walk keeps, also one that gives up. -/
theorem walkFrom_frame {P : σ → Prop}
    (hvisit : ∀ gpa pos n s, P s → P (visit gpa pos n s).1) (h : P s) :
    P (walkFrom writable offset stop visit start covered data s).1 := by
  fun_induction walkFrom writable offset stop visit start covered data s with
  | case1 | case3 | case6 => exact h
  | case2 _ _ _ _ _ _ ih => exact ih h
  | case4 _ _ _ _ _ _ _ _ _ ih => exact ih h
  | case5 _ _ _ _ _ _ _ _ _ _ _ _ ih => exact ih h
  | case7 _ _ _ _ s _ _ _ _ lo hi _ gpa _ _ hv =>
    have hs := hvisit gpa (lo - offset) (hi - lo) s h
    rwa [hv] at hs
  | case8 _ _ _ _ s _ _ _ _ lo hi _ gpa _ _ hv ih =>
    have hs := hvisit gpa (lo - offset) (hi - lo) s h
    rw [hv] at hs
    exact ih hs

theorem walkWindow_frame {P : σ → Prop} {len : Nat}
    (hvisit : ∀ gpa pos n s, P s → P (visit gpa pos n s).1) (h : P s) :
    P (walkWindow chain writable offset len visit s).1 := by
  unfold walkWindow
  split
  · exact walkFrom_frame hvisit h
  · exact h

/-- A window that was walked to its end covers its own addresses. -/
theorem walkWindow_rule (hvisit : ∀ b ∈ chain, b.isWritable = writable → ∀ gpa n done s s', b.addr ≤
      gpa → gpa + n ≤ b.addr + b.len → I done s → visit gpa done.length n s =
      (s', true) → I (done ++ List.range' gpa n) s') {len : Nat}
    (hI : I [] s)
    (hwalk : walkWindow chain writable offset len visit s = (s', true)) :
    I (window (dataAddrs chain writable) offset len) s' ∧
      (window (dataAddrs chain writable) offset len).length = len := by
  unfold walkWindow at hwalk
  cases hstop : checkedAdd offset len with
  | none => simp [hstop] at hwalk
  | some stop =>
    cases hdata : dataSegments chain with
    | none => simp [hstop, hdata] at hwalk
    | some data =>
      obtain ⟨rfl, -⟩ := checkedAdd_some hstop
      simp only [hstop, hdata, Prod.mk.injEq, beq_iff_eq] at hwalk
      have hrule := walkFrom_rule hvisit (Nat.le_add_right offset len)
        (dataSegments_subset hdata) rfl (by simp) hI
        (Prod.ext hwalk.1 hwalk.2)
      simpa [dataAddrs, hdata, eq_comm (a := len)] using hrule

end

-- ==== the two directions

theorem wroteInto_cons {w : Nat × Nat} (writes : List (Nat × Nat)) (h : within chain w = true) :
    wroteInto chain (w :: writes) = w.2 + wroteInto chain writes := by
  simp [wroteInto, h]

theorem within_of_mem {b : ChainBuf} {gpa n : Nat} (hb : b ∈ chain)
    (hw : b.isWritable = true) (hlo : b.addr ≤ gpa)
    (hhi : gpa + n ≤ b.addr + b.len) : within chain (gpa, n) = true := by
  unfold within
  rw [List.any_eq_true]
  exact ⟨b, hb, by simp [hw, hlo, hhi]⟩

variable {t t' : Target}

theorem put_eq_true {gpa : Nat} {data : List UInt8} (h : t.put gpa data = (t', true)) :
    t' = ⟨{ t.mem with bytes := poke t.mem.bytes gpa data }, (gpa, data.length) :: t.writes⟩ := by
  unfold Target.put at h
  split at h
  · cases h
    rfl
  · cases h

theorem put_eq_false {gpa : Nat} {data : List UInt8}
    (h : t.put gpa data = (t', false)) : t' = t := by
  unfold Target.put at h
  split at h
  · cases h
  · cases h
    rfl

theorem put_space (t : Target) (gpa : Nat) (data : List UInt8) :
    (t.put gpa data).1.mem.space = t.mem.space := by
  unfold Target.put
  split <;> rfl

theorem scatter_space (t : Target) (chain : List ChainBuf) (offset len : Nat) (buf : Nat → UInt8) :
    (t.scatter chain offset len buf).1.mem.space = t.mem.space :=
  walkWindow_frame (P := fun u => u.mem.space = t.mem.space)
    (fun gpa pos n u hu => (put_space u gpa (peek buf pos n)).trans hu) rfl

/-- What a scatter that went through has done: the window's addresses hold
the buffer, and as many bytes were written into the chain's own buffers. -/
theorem scatter_spec {buf : Nat → UInt8} (h : t.scatter chain offset len buf = (t', true)) :
    t'.mem = ⟨t.mem.space, pour t.mem.bytes
        (window (dataAddrs chain true) offset len) (peek buf 0 len)⟩ ∧
      wroteInto chain t'.writes = len + wroteInto chain t.writes ∧
      (window (dataAddrs chain true) offset len).length = len := by
  have hrule := walkWindow_rule (I := fun done t' =>
      t'.mem = ⟨t.mem.space, pour t.mem.bytes done (peek buf 0 done.length)⟩ ∧
      wroteInto chain t'.writes = done.length + wroteInto chain t.writes)
    ?_ ?_ h
  · obtain ⟨⟨hmem, hlog⟩, hlen⟩ := hrule
    rw [hlen] at hmem hlog
    exact ⟨hmem, hlog, hlen⟩
  · intro b hb hw gpa n done u u' hlo hhi ⟨hmem, hlog⟩ hput
    obtain rfl := put_eq_true hput
    constructor
    · rw [hmem]
      simp only [GuestMem.mk.injEq, true_and]
      rw [poke_eq_pour, peek_length, ← pour_append _ (by simp),
        List.length_append, List.length_range', peek_add, Nat.zero_add]
    · rw [peek_length, wroteInto_cons _ (within_of_mem hb hw hlo hhi), hlog,
        List.length_append, List.length_range']
      omega
  · exact ⟨rfl, (Nat.zero_add _).symm⟩

/-- What a gather that went through has put in the buffer. -/
theorem gather_spec {m : GuestMem} {buf buf' : Nat → UInt8}
    (h : gather m chain offset len buf = (buf', true)) :
    peek buf' 0 len = (window (dataAddrs chain false) offset len).map m.bytes ∧
      (window (dataAddrs chain false) offset len).length = len := by
  have hrule := walkWindow_rule (I := fun done buf => peek buf 0 done.length = done.map m.bytes)
    ?_ rfl h
  · obtain ⟨hbuf, hlen⟩ := hrule
    rw [hlen] at hbuf
    exact ⟨hbuf, hlen⟩
  · intro b _ _ gpa n done u u' _ _ hdone hcopy
    split at hcopy
    · cases hcopy
      rw [List.length_append, List.length_range', peek_add, Nat.zero_add,
        peek_poke_apart (by left; omega), hdone, peek_poke_peek, peek_eq_map,
        List.map_append]
    · cases hcopy

end Rshyve.Virtio.Blk
