/-
# Where the bytes of a vsock stream are

`Stream` is what a connection's bytes pass through, apart from how the device
is scheduled: the peer's socket, the reader's buffer, the shared queue, the
packet in hand, the chains. Four invariants account for them.

- `Hands`: the packet taken off the queue is in the hand of one thread.
- `Fifo`: what was accepted is, in order, what was published, what is in
  hand and what is queued.
- `Named`: a queued payload is of the connection that has its port pair, and
  what was published went to that connection.
- `Readers`: a connection has one reader, and its buffer is that reader's.
- `Ledger`: what the peer of a connection sent is, in order, what was
  accepted of it, what its reader has and what is unread.

Every lemma below is about one thing that can happen to the bytes. Which
step of the device makes it happen is in `VsockFlow` and `VsockStream`.
-/
import Rshyve.Virtio.Proofs.VsockSteps

namespace Rshyve.Virtio.Vsock

open Conc Function
open Shared (tagged carried)

-- ==== the stream

/-- The part of the state that the bytes pass through. A connection is its
number. -/
structure Stream where
  conns : ConnKey → Option Nat
  latest : ConnKey → Option Nat
  nextId : Nat
  rx : List RxPacket
  hand : Option RxPacket
  spawned : List (ConnKey × Nat)
  sent : Nat → List UInt8
  unread : Nat → List UInt8
  buf : Nat → List UInt8
  accepted : List (Nat × UInt8)
  published : List (Nat × UInt8)
  delivered : Nat → List (Nat × UInt8)

def Shared.stream (s : Shared) : Stream where
  conns key := (s.conns key).map Entry.id
  latest := s.latest
  nextId := s.nextId
  rx := s.rx
  hand := s.hand
  spawned := s.spawned
  sent := s.sent
  unread := s.unread
  buf := s.buf
  accepted := s.accepted
  published := s.published
  delivered := s.delivered

/-- The bytes of one connection. -/
def bytesOf (id : Nat) (xs : List (Nat × UInt8)) : List UInt8 :=
  (xs.filter (·.1 == id)).map Prod.snd

theorem bytesOf_append (id : Nat) (xs ys : List (Nat × UInt8)) :
    bytesOf id (xs ++ ys) = bytesOf id xs ++ bytesOf id ys := by
  simp [bytesOf]

theorem filter_tagged (p : RxPacket) (id : Nat) :
    (tagged p).filter (·.1 == id) = if p.origin = id then tagged p else [] := by
  split
  next h =>
    refine List.filter_eq_self.mpr fun x hx => ?_
    obtain ⟨b, -, rfl⟩ := List.mem_map.mp hx
    exact beq_iff_eq.mpr h
  next h =>
    refine List.filter_eq_nil_iff.mpr fun x hx => ?_
    obtain ⟨b, -, rfl⟩ := List.mem_map.mp hx
    exact fun hb => h (beq_iff_eq.mp hb)

theorem bytesOf_tagged (p : RxPacket) (id : Nat) :
    bytesOf id (tagged p) = if p.origin = id then p.payload else [] := by
  unfold bytesOf
  rw [filter_tagged]
  split
  · simp [tagged]
  · rfl

/-- What is left of a history for one connection is its bytes, each with the
connection's number. -/
theorem filter_eq_bytesOf (id : Nat) (xs : List (Nat × UInt8)) :
    xs.filter (·.1 == id) = (bytesOf id xs).map (Prod.mk id) := by
  unfold bytesOf
  rw [List.map_map]
  refine (List.map_id _).symm.trans (List.map_congr_left fun x hx => ?_)
  have hid : x.1 = id := by simpa using (List.mem_filter.mp hx).2
  exact Prod.ext hid rfl

-- ==== in one hand

/-- `hand` is the packet in hand, `H t` what thread `t` knows of it. -/
structure Hands (hand : Option RxPacket) (H : Nat → Option RxPacket) :
    Prop where
  held : ∀ t h, H t = some h → hand = some h
  live : ∀ h, hand = some h → h.payload ≠ [] → ∃ t, H t = some h

namespace Hands

variable {hand : Option RxPacket} {H : Nat → Option RxPacket} {t : Nat}

/-- A thread takes up a packet, or less of the one it has. -/
theorem take (halone : ∀ u, u ≠ t → H u = none) (p : RxPacket) :
    Hands (some p) (update H t (some p)) where
  held u q hq := by
    rcases update_eq_some hq with ⟨-, hq⟩ | ⟨hu, hq⟩
    · exact hq
    · rw [halone u hu] at hq
      cases hq
  live q hq _ := ⟨t, by rw [update_self]; exact hq⟩

theorem publish (halone : ∀ u, u ≠ t → H u = none) : Hands none (update H t none) where
  held u q hq := by
    rcases update_eq_some hq with ⟨-, hq⟩ | ⟨hu, hq⟩
    · exact hq
    · rw [halone u hu] at hq
      cases hq
  live q hq _ := nomatch hq

/-- A hand with nothing left in it is let go of. -/
theorem letGo (h : Hands hand H) (hnil : ∀ q, H t = some q → q.payload = []) :
    Hands hand (update H t none) where
  held u q hq := h.held u q (of_update_none hq)
  live q hq hne := by
    obtain ⟨u, hu⟩ := h.live q hq hne
    have hut : u ≠ t := fun e => hne (hnil q (e ▸ hu))
    exact ⟨u, (update_of_ne hut _ _).trans hu⟩

end Hands

-- ==== in order

/-- Nothing that was accepted is lost or overtaken. -/
def Fifo (v : Stream) : Prop :=
  v.published ++ (v.hand.toList ++ v.rx).flatMap tagged = v.accepted

variable {p : RxPacket}

/-- A packet that is written out whole is published whole. -/
theorem carried_eq {written : Nat} (hle : hdrSize + p.payload.length ≤ written) :
    carried p written = tagged p := by
  have hblob : p.blob.length ≤ written := by
    simpa [RxPacket.blob] using hle
  have hdrop : p.blob.drop hdrSize = p.payload := by
    unfold RxPacket.blob
    rw [← p.hdr.toBytes_length, List.drop_left]
  unfold carried tagged
  rw [List.take_of_length_le hblob, hdrop]

namespace Fifo

variable {v : Stream}

theorem push (h : Fifo v) (p : RxPacket) :
    Fifo { v with rx := v.rx ++ [p], accepted := v.accepted ++ tagged p } := by
  unfold Fifo at h ⊢
  simp only [List.flatMap_append, List.flatMap_cons, List.flatMap_nil, List.append_nil] at h ⊢
  rw [← h]
  simp only [List.append_assoc]

theorem pop (h : Fifo v) {rest : List RxPacket} (hrx : v.rx = p :: rest)
    (hnil : ∀ q, v.hand = some q → q.payload = []) :
    Fifo { v with rx := rest, hand := some p } := by
  have hold : v.hand.toList.flatMap tagged = [] := by
    cases hh : v.hand with
    | none => rfl
    | some q => simp [tagged, hnil q hh]
  unfold Fifo at h
  rw [List.flatMap_append, hold, hrx] at h
  exact h

theorem requeue (h : Fifo v) {p hd : RxPacket} {front : List UInt8}
    (hhand : v.hand = some hd) (hsame : SamePacket p hd)
    (hcut : hd.payload = front ++ p.payload) :
    Fifo { v with
      rx := p :: v.rx
      hand := some { hd with payload := front } } := by
  have htags : tagged hd = tagged { hd with payload := front } ++ tagged p := by
    simp only [tagged, hcut, List.map_append, hsame.1]
  unfold Fifo at h ⊢
  rw [hhand] at h
  simp only [Option.toList_some, List.cons_append, List.nil_append, List.flatMap_cons] at h ⊢
  rw [← h, htags, List.append_assoc]

theorem publish (h : Fifo v) {p hd : RxPacket} (hhand : v.hand = some hd)
    (hsame : SamePacket p hd) (hpay : p.payload = hd.payload) :
    Fifo { v with published := v.published ++ tagged p, hand := none } := by
  have htags : tagged hd = tagged p := by
    simp only [tagged, hpay, hsame.1]
  unfold Fifo at h ⊢
  rw [hhand] at h
  simp only [Option.toList_some, Option.toList_none, List.cons_append,
    List.nil_append, List.flatMap_cons] at h ⊢
  rw [← h, htags, List.append_assoc]

end Fifo

-- ==== for the right one

structure Named (v : Stream) : Prop where
  origin : ∀ p ∈ v.hand.toList ++ v.rx, p.payload ≠ [] → v.latest p.hdr.hostKey = some p.origin
  table : ∀ key id, v.conns key = some id → v.latest key = some id ∧ id < v.nextId
  delivered : ∀ c, v.delivered c = v.published.filter (·.1 == c)

namespace Named

variable {v : Stream}
variable (h : Named v)
include h

theorem push (hp : p.payload ≠ [] → v.latest p.hdr.hostKey = some p.origin) :
    Named { v with rx := v.rx ++ [p] } := by
  refine { h with origin := fun q hq => ?_ }
  simp only [← List.append_assoc] at hq
  rcases List.mem_append.mp hq with hq | hq
  · exact h.origin q hq
  · rw [List.mem_singleton.mp hq]
    exact hp

theorem pop {rest : List RxPacket} (hrx : v.rx = p :: rest) :
    Named { v with rx := rest, hand := some p } := by
  refine { h with
    origin := fun q hq => h.origin q (List.mem_append_right _ ?_) }
  rw [hrx]
  exact hq

theorem requeue {p hd : RxPacket} {front : List UInt8}
    (hhand : v.hand = some hd) (hsame : SamePacket p hd)
    (hcut : hd.payload = front ++ p.payload) :
    Named { v with
      rx := p :: v.rx
      hand := some { hd with payload := front } } := by
  refine { h with origin := fun q hq hne => ?_ }
  have hin : hd ∈ v.hand.toList ++ v.rx := by simp [hhand]
  rcases List.mem_append.mp hq with hq | hq
  · obtain rfl : q = { hd with payload := front } := by simpa using hq
    exact h.origin hd hin fun e => hne (by simp_all)
  · rcases List.mem_cons.mp hq with rfl | hq
    · rw [hsame.1, hsame.2]
      exact h.origin hd hin fun e => hne (by simp_all)
    · exact h.origin q (List.mem_append_right _ hq) hne

theorem publish {p hd : RxPacket} (hhand : v.hand = some hd)
    (hsame : SamePacket p hd) (hpay : p.payload = hd.payload) :
    Named { v with
      published := v.published ++ tagged p
      delivered :=
        match v.latest p.hdr.hostKey with
        | none => v.delivered
        | some id =>
          update v.delivered id (v.delivered id ++ tagged p)
      hand := none } := by
  refine ⟨fun q hq => h.origin q (List.mem_append_right _ hq), h.table, fun c => ?_⟩
  have hold := h.delivered
  rw [List.filter_append, filter_tagged]
  by_cases hnil : p.payload = []
  · -- a header alone moves nobody's bytes
    have hnone : tagged p = [] := by simp [tagged, hnil]
    simp only [hnone, ite_self, List.append_nil, update_eq_self]
    cases v.latest p.hdr.hostKey with
    | none => exact hold c
    | some id => exact hold c
  · have hlatest : v.latest p.hdr.hostKey = some p.origin := by
      rw [hsame.1, hsame.2]
      exact h.origin hd (by simp [hhand]) (hpay ▸ hnil)
    rw [hlatest]
    by_cases hc : c = p.origin
    · subst hc
      simp only [update_self, if_true]
      rw [hold]
    · simp only [update_of_ne hc, if_neg (Ne.symm hc), List.append_nil]
      exact hold c

theorem opens {key : ConnKey}
    (hfresh : ∀ p ∈ v.hand.toList ++ v.rx, p.payload ≠ [] → p.hdr.hostKey ≠ key) :
    Named { v with
      conns := update v.conns key (some v.nextId)
      nextId := v.nextId + 1
      latest := update v.latest key (some v.nextId) } := by
  refine { h with origin := fun p hp hne => ?_, table := fun k id hk => ?_ }
  · show update _ _ _ _ = _
    rw [update_of_ne (hfresh p hp hne)]
    exact h.origin p hp hne
  · simp only
    rcases update_eq_some hk with ⟨rfl, hid⟩ | ⟨hkey, hk⟩
    · obtain rfl := Option.some.inj hid
      exact ⟨update_self _ _ _, Nat.lt_succ_self _⟩
    · rw [update_of_ne hkey]
      exact (h.table k id hk).imp_right Nat.lt_succ_of_lt

theorem forget (key : ConnKey) : Named { v with conns := update v.conns key none } :=
  { h with table := fun k id hk => h.table k id (of_update_none hk) }

end Named

-- ==== by one reader

/-- The connection a thread serves, with the bytes it has of it. -/
abbrev Serving := Option (ConnKey × Nat × List UInt8)

/-- Nobody but the connection of `key` has the number. -/
def Home (v : Stream) (key : ConnKey) (id : Nat) : Prop :=
  ∀ k, v.conns k = some id → k = key

structure Readers (v : Stream) (R : Nat → Serving) : Prop where
  served : ∀ t key id data, R t = some (key, id, data) →
    id < v.nextId ∧ v.buf id = data ∧ Home v key id
  alone : ∀ t u key k id data d, R t = some (key, id, data) → R u = some (k, id, d) → u = t
  waiting : ∀ key id, (key, id) ∈ v.spawned → id < v.nextId ∧ v.buf id = [] ∧ Home v key id ∧
      ∀ t k d, R t ≠ some (k, id, d)
  once : (v.spawned.map Prod.snd).Nodup

namespace Readers

variable {v : Stream} {R : Nat → Serving} {t : Nat} {key : ConnKey} {id : Nat}
variable (h : Readers v R)
include h

theorem rebuffer {data : List UInt8} (ht : R t = some (key, id, data)) (rest : List UInt8) :
    Readers { v with buf := update v.buf id rest } (update R t (some (key, id, rest))) where
  served u k i d hu := by
    rcases update_eq_some hu with ⟨rfl, heq⟩ | ⟨hut, hu⟩
    · cases heq
      have hold := h.served u key id data ht
      exact ⟨hold.1, update_self _ _ _, hold.2.2⟩
    · have hne : i ≠ id := fun e => hut (h.alone t u key k id data d ht (e ▸ hu))
      have hold := h.served u k i d hu
      exact ⟨hold.1, (update_of_ne hne _ _).trans hold.2.1, hold.2.2⟩
  alone u w k k' i d d' hu hw := by
    rcases update_eq_some hu with ⟨rfl, heq⟩ | ⟨-, hold⟩
    · cases heq
      rcases update_eq_some hw with ⟨hwt, -⟩ | ⟨-, hw⟩
      · exact hwt
      · exact h.alone u w key k' id data d' ht hw
    · rcases update_eq_some hw with ⟨rfl, heq⟩ | ⟨-, hw⟩
      · cases heq
        exact h.alone u w k key id d data hold ht
      · exact h.alone u w k k' i d d' hold hw
  waiting k i hin := by
    obtain ⟨hlt, hbuf, hhome, hfree⟩ := h.waiting k i hin
    have hne : i ≠ id := fun e => hfree t key data (e ▸ ht)
    refine ⟨hlt, (update_of_ne hne _ _).trans hbuf, hhome, ?_⟩
    intro u k' d hu
    rcases update_eq_some hu with ⟨rfl, heq⟩ | ⟨-, hu⟩
    · cases heq
      exact hne rfl
    · exact hfree u k' d hu
  once := h.once

theorem quit (t : Nat) : Readers v (update R t none) where
  served u k i d hu := h.served u k i d (of_update_none hu)
  alone u w k k' i d d' hu hw :=
    h.alone u w k k' i d d' (of_update_none hu) (of_update_none hw)
  waiting k i hin := by
    obtain ⟨hlt, hbuf, hhome, hfree⟩ := h.waiting k i hin
    exact ⟨hlt, hbuf, hhome, fun u k' d hu => hfree u k' d (of_update_none hu)⟩
  once := h.once

/-- A thread starts to serve a connection that nobody serves or is spawned
for. -/
theorem serve (hlt : id < v.nextId) (hbuf : v.buf id = [])
    (hhome : Home v key id) (hfree : ∀ u k d, R u ≠ some (k, id, d))
    (hout : ∀ k, (k, id) ∉ v.spawned) (t : Nat) :
    Readers v (update R t (some (key, id, []))) where
  served u k i d hu := by
    rcases update_eq_some hu with ⟨-, heq⟩ | ⟨-, hu⟩
    · cases heq
      exact ⟨hlt, hbuf, hhome⟩
    · exact h.served u k i d hu
  alone u w k k' i d d' hu hw := by
    rcases update_eq_some hu with ⟨rfl, heq⟩ | ⟨-, hold⟩
    · cases heq
      rcases update_eq_some hw with ⟨hwt, -⟩ | ⟨-, hw⟩
      · exact hwt
      · exact absurd hw (hfree w k' d')
    · rcases update_eq_some hw with ⟨rfl, heq⟩ | ⟨-, hw⟩
      · cases heq
        exact absurd hold (hfree u k d)
      · exact h.alone u w k k' i d d' hold hw
  waiting k i hin := by
    obtain ⟨hlt', hbuf', hhome', hfree'⟩ := h.waiting k i hin
    refine ⟨hlt', hbuf', hhome', fun u k' d hu => ?_⟩
    rcases update_eq_some hu with ⟨-, heq⟩ | ⟨-, hu⟩
    · cases heq
      exact hout k hin
    · exact hfree' u k' d hu
  once := h.once

/-- A connection is put in the table under the next number. -/
theorem opens (key : ConnKey) : Readers { v with
      conns := update v.conns key (some v.nextId)
      nextId := v.nextId + 1
      latest := update v.latest key (some v.nextId) } R := by
  have hhome : ∀ {k i}, i < v.nextId → Home v k i →
      ∀ k', update v.conns key (some v.nextId) k' = some i → k' = k := by
    intro k i hlt hold k' hk'
    rcases update_eq_some hk' with ⟨-, hk'⟩ | ⟨-, hk'⟩
    · exact absurd (Option.some.inj hk') (Nat.ne_of_gt hlt)
    · exact hold k' hk'
  refine ⟨fun t k i d ht => ?_, h.alone, fun k i hin => ?_, h.once⟩
  · obtain ⟨hlt, hbuf, hold⟩ := h.served t k i d ht
    exact ⟨Nat.lt_succ_of_lt hlt, hbuf, hhome hlt hold⟩
  · obtain ⟨hlt, hbuf, hold, hfree⟩ := h.waiting k i hin
    exact ⟨Nat.lt_succ_of_lt hlt, hbuf, hhome hlt hold, hfree⟩

theorem forget (key : ConnKey) : Readers { v with conns := update v.conns key none } R := by
  refine { h with served := fun t k i d ht => ?_, waiting := fun k i hin => ?_ }
  · obtain ⟨hlt, hbuf, hold⟩ := h.served t k i d ht
    exact ⟨hlt, hbuf, fun k' hk' => hold k' (of_update_none hk')⟩
  · obtain ⟨hlt, hbuf, hold, hfree⟩ := h.waiting k i hin
    exact ⟨hlt, hbuf, fun k' hk' => hold k' (of_update_none hk'), hfree⟩

theorem spawn (ht : R t = some (key, id, [])) :
    Readers { v with spawned := v.spawned ++ [(key, id)] } (update R t none) := by
  have hquit := h.quit t
  have hold := h.served t key id [] ht
  refine { hquit with waiting := fun k i hin => ?_, once := ?_ }
  · rcases List.mem_append.mp hin with hin | hin
    · exact hquit.waiting k i hin
    · cases List.mem_singleton.mp hin
      refine ⟨hold.1, hold.2.1, hold.2.2, fun u k' d hu => ?_⟩
      rcases update_eq_some hu with ⟨-, heq⟩ | ⟨hut, hu⟩
      · cases heq
      · exact hut (h.alone t u key k' id [] d ht hu)
  · rw [List.map_append, List.nodup_append]
    refine ⟨h.once, List.nodup_singleton _, fun i hi j hj hij => ?_⟩
    obtain ⟨⟨k, i⟩, hin, rfl⟩ := List.mem_map.mp hi
    obtain rfl : j = id := by simpa using hj
    subst hij
    exact (h.waiting k i hin).2.2.2 t key [] ht

theorem start (hin : (key, id) ∈ v.spawned) (t : Nat) :
    Readers { v with spawned := v.spawned.erase (key, id) } (update R t (some (key, id, []))) := by
  obtain ⟨hlt, hbuf, hhome, hfree⟩ := h.waiting key id hin
  have hout : ∀ k, (k, id) ∉ v.spawned.erase (key, id) := by
    intro k hk
    have hnodup := h.once
    have hperm := (List.perm_cons_erase hin).map Prod.snd
    have hcons := hperm.nodup_iff.mp hnodup
    rw [List.map_cons, List.nodup_cons] at hcons
    exact hcons.1 (List.mem_map.mpr ⟨(k, id), hk, rfl⟩)
  have hless : Readers { v with spawned := v.spawned.erase (key, id) } R :=
    ⟨h.served, h.alone, fun k i hk => h.waiting k i (List.mem_of_mem_erase hk),
      h.once.sublist (List.erase_sublist.map _)⟩
  exact hless.serve hlt hbuf hhome hfree hout t

end Readers

-- ==== accounted for

structure Ledger (v : Stream) : Prop where
  whole : ∀ key id, v.conns key = some id →
    bytesOf id v.accepted ++ v.buf id ++ v.unread id = v.sent id
  before : ∀ id, bytesOf id v.accepted <+: v.sent id
  unborn : ∀ id, v.nextId ≤ id →
    bytesOf id v.accepted = [] ∧ v.buf id = [] ∧ v.unread id = v.sent id

namespace Ledger

variable {v : Stream} {key : ConnKey} {id : Nat}
variable (h : Ledger v)
include h

theorem queue (hkey : v.conns key = some id) (hlt : id < v.nextId)
    (horigin : p.origin = id) {rest : List UInt8}
    (hbuf : v.buf id = p.payload ++ rest) :
    Ledger { v with
      rx := v.rx ++ [p]
      buf := update v.buf id rest
      accepted := v.accepted ++ tagged p } := by
  have hmine : bytesOf id (v.accepted ++ tagged p) = bytesOf id v.accepted ++ p.payload := by
    rw [bytesOf_append, bytesOf_tagged, if_pos horigin]
  have hother : ∀ i, i ≠ id → bytesOf i (v.accepted ++ tagged p) = bytesOf i v.accepted := by
    intro i hi
    rw [bytesOf_append, bytesOf_tagged,
      if_neg (fun e => hi (e.symm.trans horigin)), List.append_nil]
  have hall : bytesOf id v.accepted ++ p.payload ++ rest ++ v.unread id = v.sent id := by
    rw [← h.whole key id hkey, hbuf]
    simp only [List.append_assoc]
  refine ⟨fun k i hk => ?_, fun i => ?_, fun i hi => ?_⟩
  · simp only at hk ⊢
    by_cases hid : i = id
    · subst hid
      rw [hmine, update_self]
      exact hall
    · rw [hother i hid, update_of_ne hid]
      exact h.whole k i hk
  · simp only
    by_cases hid : i = id
    · subst hid
      rw [hmine, ← hall]
      simp only [List.append_assoc]
      rw [← List.append_assoc]
      exact List.prefix_append _ _
    · rw [hother i hid]
      exact h.before i
  · have hid : i ≠ id := Nat.ne_of_gt (Nat.lt_of_lt_of_le hlt hi)
    simp only
    rw [hother i hid, update_of_ne hid]
    exact h.unborn i hi

theorem discard (hlt : id < v.nextId) (hgone : ∀ k, v.conns k ≠ some id)
    (rest : List UInt8) : Ledger { v with buf := update v.buf id rest } := by
  refine { h with
    whole := fun k i hk => ?_, unborn := fun i hi => ?_ }
  · have hid : i ≠ id := fun e => hgone k (e ▸ hk)
    simp only
    rw [update_of_ne hid]
    exact h.whole k i hk
  · have hid : i ≠ id := Nat.ne_of_gt (Nat.lt_of_lt_of_le hlt hi)
    simp only
    rw [update_of_ne hid]
    exact h.unborn i hi

theorem read (hlt : id < v.nextId) (hbuf : v.buf id = []) (n : Nat) : Ledger { v with
      unread := update v.unread id ((v.unread id).drop n)
      buf := update v.buf id ((v.unread id).take n) } where
  whole k i hk := by
    simp only at hk ⊢
    by_cases hid : i = id
    · subst hid
      have hold := h.whole k i hk
      rw [hbuf, List.append_nil] at hold
      rw [update_self, update_self, List.append_assoc, List.take_append_drop]
      exact hold
    · rw [update_of_ne hid, update_of_ne hid]
      exact h.whole k i hk
  before := h.before
  unborn i hi := by
    have hid : i ≠ id := Nat.ne_of_gt (Nat.lt_of_lt_of_le hlt hi)
    simp only
    rw [update_of_ne hid, update_of_ne hid]
    exact h.unborn i hi

theorem opens (key : ConnKey) : Ledger { v with
      conns := update v.conns key (some v.nextId)
      nextId := v.nextId + 1
      latest := update v.latest key (some v.nextId) } := by
  refine { h with
    whole := fun k i hk => ?_
    unborn := fun i hi => h.unborn i (Nat.le_of_succ_le hi) }
  rcases update_eq_some hk with ⟨-, hk⟩ | ⟨-, hk⟩
  · obtain rfl := Option.some.inj hk
    obtain ⟨hacc, hbuf, hunread⟩ := h.unborn v.nextId (Nat.le_refl _)
    simp only
    rw [hacc, hbuf, hunread]
    rfl
  · exact h.whole k i hk

theorem forget (key : ConnKey) : Ledger { v with conns := update v.conns key none } :=
  { h with whole := fun k i hk => h.whole k i (of_update_none hk) }

theorem send (id : Nat) (bytes : List UInt8) : Ledger { v with
      sent := update v.sent id (v.sent id ++ bytes)
      unread := update v.unread id (v.unread id ++ bytes) } := by
  refine ⟨fun k i hk => ?_, fun i => ?_, fun i hi => ?_⟩
  · simp only at hk ⊢
    have hold := h.whole k i hk
    by_cases hid : i = id
    · subst hid
      rw [update_self, update_self, ← hold]
      simp only [List.append_assoc]
    · rw [update_of_ne hid, update_of_ne hid]
      exact hold
  · simp only
    by_cases hid : i = id
    · subst hid
      rw [update_self]
      exact (h.before i).trans (List.prefix_append _ _)
    · rw [update_of_ne hid]
      exact h.before i
  · obtain ⟨hacc, hbuf, hunread⟩ := h.unborn i hi
    refine ⟨hacc, hbuf, ?_⟩
    simp only
    by_cases hid : i = id
    · subst hid
      rw [update_self, update_self, hunread]
    · rw [update_of_ne hid, update_of_ne hid]
      exact hunread

end Ledger

end Rshyve.Virtio.Vsock
