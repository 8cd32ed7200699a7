/-
# Following links under a bound

A loop that stands at a node, emits something, and goes on to the node it is
pointed at, for at most `n` turns. The links come from memory nobody vouches
for, so they may run in a circle.

`Path` is the walk without the bound: a finite sequence of turns, each of
which succeeds. `walk_eq_some_iff` says the two agree when the nodes a turn
accepts number at most `n`. One direction drops the bound. The other is a
pigeonhole: a walk that ends visits no node twice (`Run.nodup`), since a node
that came back would bring the same end no closer.
-/
import Mathlib

namespace Links

variable {α β : Type}

-- ==== runs of bare links

/-- The nodes visited from `a` on, when the links come to an end. -/
inductive Run (next : α → Option α) : α → List α → Prop where
  | stop {a : α} (h : next a = none) : Run next a [a]
  | link {a b : α} {l : List α} (h : next a = some b) (hl : Run next b l) : Run next a (a :: l)

namespace Run

variable {next : α → Option α} {a b : α} {l l' : List α}

/-- The links fix the whole run. -/
theorem unique (h : Run next a l) (h' : Run next a l') : l = l' := by
  induction h generalizing l' with
  | stop hn =>
    cases h' with
    | stop _ => rfl
    | link hn' _ => rw [hn] at hn'; cases hn'
  | link hn _ ih =>
    cases h' with
    | stop hn' => rw [hn] at hn'; cases hn'
    | link hn' hl' =>
      rw [hn] at hn'
      cases hn'
      rw [ih hl']

/-- From every node of a run the rest of it is a run. -/
theorem of_mem (h : Run next a l) (hb : b ∈ l) : ∃ l', Run next b l' ∧ l'.length ≤ l.length := by
  induction h with
  | stop hn =>
    cases List.mem_singleton.1 hb
    exact ⟨_, .stop hn, Nat.le_refl _⟩
  | link hn hl ih =>
    rcases List.mem_cons.1 hb with rfl | hb
    · exact ⟨_, .link hn hl, Nat.le_refl _⟩
    · obtain ⟨l', hl', hle⟩ := ih hb
      exact ⟨l', hl', Nat.le_succ_of_le hle⟩

theorem nodup (h : Run next a l) : l.Nodup := by
  induction h with
  | stop _ => exact List.nodup_singleton _
  | @link a b l hn hl ih =>
    refine List.nodup_cons.2 ⟨fun hmem => ?_, ih⟩
    -- were `a` to come back, its run would be shorter than itself
    obtain ⟨l', hl', hle⟩ := hl.of_mem hmem
    have heq : l' = a :: l := hl'.unique (.link hn hl)
    rw [heq, List.length_cons] at hle
    exact Nat.not_succ_le_self _ hle

/-- A run through nodes numbered below `n` has at most `n` of them. -/
theorem length_le {n : Nat} {f : α → Nat} (hf : Function.Injective f)
    (h : Run next a l) (hb : ∀ b ∈ l, f b < n) : l.length ≤ n := by
  have hnodup : (l.map f).Nodup := h.nodup.map hf
  have hsub : l.map f ⊆ List.range n := by
    intro i hi
    obtain ⟨b, hmem, rfl⟩ := List.mem_map.1 hi
    exact List.mem_range.2 (hb b hmem)
  have hle := (List.subperm_of_subset hnodup hsub).length_le
  rwa [List.length_map, List.length_range] at hle

end Run

-- ==== the counted loop

/-- One turn of the loop, after `k` others: give up, emit and stop, or emit
and go on. -/
abbrev Turn (α β : Type) := Nat → α → Option (List β × Option α)

/-- The loop with `fuel` turns left, `k` behind it and `acc` emitted. -/
def walk (turn : Turn α β) : Nat → Nat → α → List β → Option (List β)
  | 0, _, _, _ => none
  | fuel + 1, k, a, acc =>
    match turn k a with
    | none => none
    | some (out, none) => some (acc ++ out)
    | some (out, some b) => walk turn fuel (k + 1) b (acc ++ out)

/-- The same turns, as many as there are. -/
inductive Path (turn : Turn α β) : Nat → α → List β → Prop where
  | stop {k : Nat} {a : α} {out : List β} (h : turn k a = some (out, none)) : Path turn k a out
  | link {k : Nat} {a b : α} {out rest : List β}
      (h : turn k a = some (out, some b)) (hrest : Path turn (k + 1) b rest) :
      Path turn k a (out ++ rest)

section

variable {turn : Turn α β} {next : α → Option α} {k fuel n : Nat} {a : α} {acc out rest : List β}

/-- What the loop returns is a path. -/
theorem path_of_walk (h : walk turn fuel k a acc = some out) :
    ∃ rest, Path turn k a rest ∧ out = acc ++ rest := by
  induction fuel generalizing k a acc with
  | zero => cases h
  | succ fuel ih =>
    rw [walk] at h
    split at h
    · cases h
    · rename_i out' ht
      cases h
      exact ⟨out', .stop ht, rfl⟩
    · rename_i out' b ht
      obtain ⟨rest, hrest, rfl⟩ := ih h
      exact ⟨out' ++ rest, .link ht hrest, List.append_assoc _ _ _⟩

/-- A path is a run of links through nodes a turn accepts. -/
theorem Path.run (hnext : ∀ k a out b, turn k a = some (out, b) → next a = b)
    (h : Path turn k a rest) :
    ∃ l, Run next a l ∧ ∀ b ∈ l, ∃ k, (turn k b).isSome := by
  induction h with
  | @stop k a out ht =>
    refine ⟨[a], .stop (hnext _ _ _ _ ht), fun b hb => ?_⟩
    cases List.mem_singleton.1 hb
    exact ⟨k, by rw [ht]; rfl⟩
  | @link k a b out rest ht _ ih =>
    obtain ⟨l, hl, hall⟩ := ih
    refine ⟨a :: l, .link (hnext _ _ _ _ ht) hl, fun c hc => ?_⟩
    rcases List.mem_cons.1 hc with rfl | hc
    · exact ⟨k, by rw [ht]; rfl⟩
    · exact hall c hc

/-- The loop follows a path to its end if it has a turn for every node. -/
theorem walk_of_path (hnext : ∀ k a out b, turn k a = some (out, b) → next a = b)
    (h : Path turn k a rest) {l : List α} (hl : Run next a l)
    (hfuel : l.length ≤ fuel) :
    walk turn fuel k a acc = some (acc ++ rest) := by
  induction h generalizing l fuel acc with
  | stop ht =>
    cases fuel with
    | zero => cases hl <;> cases hfuel
    | succ fuel => rw [walk, ht]
  | link ht _ ih =>
    have hn := hnext _ _ _ _ ht
    cases hl with
    | stop hs => rw [hn] at hs; cases hs
    | link hb hl =>
      rw [hn] at hb
      cases hb
      cases fuel with
      | zero => cases hfuel
      | succ fuel =>
        rw [walk, ht]
        simp only []
        rw [ih hl (Nat.le_of_succ_le_succ hfuel), List.append_assoc]

/-- A loop of `n` turns over at most `n` nodes finds exactly the paths. -/
theorem walk_eq_some_iff (hnext : ∀ k a out b, turn k a = some (out, b) → next a = b)
    {f : α → Nat} (hf : Function.Injective f)
    (hn : ∀ k a, (turn k a).isSome → f a < n) :
    walk turn n k a [] = some out ↔ Path turn k a out := by
  constructor
  · intro h
    obtain ⟨rest, hrest, rfl⟩ := path_of_walk h
    exact hrest
  · intro h
    obtain ⟨l, hl, hall⟩ := h.run hnext
    have hle : l.length ≤ n := hl.length_le hf fun b hb =>
      let ⟨k, hk⟩ := hall b hb
      hn k b hk
    exact walk_of_path hnext h hl hle

/-- At most one thing is emitted for every turn the loop was given, if the
last turn may still use up what is left of them. -/
theorem walk_length_le (hone : ∀ k a out b, turn k a = some (out, some b) → out.length ≤ 1)
    (hlast : ∀ k a out, k < n → turn k a = some (out, none) → out.length ≤ n - k)
    (hk : fuel + k = n) (h : walk turn fuel k a acc = some out) :
    out.length ≤ acc.length + fuel := by
  induction fuel generalizing k a acc with
  | zero => cases h
  | succ fuel ih =>
    rw [walk] at h
    split at h
    · cases h
    · rename_i out' ht
      cases h
      have := hlast k a out' (by omega) ht
      rw [List.length_append]
      omega
    · rename_i out' b ht
      have hle := ih (by omega) h
      have := hone k a out' b ht
      rw [List.length_append] at hle
      omega

end

end Links
