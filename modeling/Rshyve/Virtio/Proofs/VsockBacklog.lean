/-
# The backlog of the vsock device

Packets for the guest wait in one queue, with a count of the payload bytes
in it and a cap on each of the two. The count is exact in every state of
every run (`counted_reach`).

# The caps

`push_rx` tests both caps. `requeue_rx_front` tests neither: "the packet was
just popped, so the queue returns to a size it already held". Between the pop
and the requeue another thread can queue a packet in the place that the pop
left, and the queue then ends one over its cap (`requeue_over_cap`). In a run
where every packet put back still finds the room `push_rx` would ask for, both
caps hold throughout (`backlog_capped`).
-/
import Rshyve.Virtio.Proofs.VsockClose

namespace Rshyve.Virtio.Vsock

open Conc

-- ==== one step

/-- The payload bytes in the queue. -/
def Shared.queuedBytes (s : Shared) : Nat :=
  (s.rx.map fun p => p.payload.length).sum

/-- A packet is put back only where `push_rx` would find room for it. -/
def findsRoom : Op → Shared → Bool
  | .requeueRxFront p, s => (s.pushRx p).1
  | _, _ => true

/-- A packet joins the queue at its end. -/
def Joins (p : RxPacket) (s s' : Shared) : Prop :=
  s'.rx = s.rx ++ [p] ∧ s'.rxBytes = s.rxBytes + p.payload.length

/-- What one step does to the queue. -/
inductive QueueStep (o : Op) (s s' : Shared) : Prop where
  | same (hrx : s'.rx = s.rx) (hbytes : s'.rxBytes = s.rxBytes)
  | push (p : RxPacket) (hroom : (s.pushRx p).1 = true) (h : Joins p s s')
  | pop (p : RxPacket) (hrx : s.rx = p :: s'.rx)
      (hbytes : s'.rxBytes = s.rxBytes - p.payload.length)
  | requeue (p : RxPacket) (ho : o = .requeueRxFront p) (hrx : s'.rx = p :: s.rx)
      (hbytes : s'.rxBytes = s.rxBytes + p.payload.length)

section Step

variable {guestCid : BitVec 64} {s s' : Shared} {t : Nat} {c : Choice}

variable {p : RxPacket}

/-- The room that `push_rx` asks for. -/
theorem pushRx_room (h : (s.pushRx p).1 = true) : s.rx.length < rxPacketsMax ∧
      (p.payload = [] ∨ s.rxBytes + p.payload.length ≤ rxBacklogMax) := by
  unfold Shared.pushRx at h
  split at h
  · cases h
  next hlen =>
    split at h
    · cases h
    next hbytes =>
      refine ⟨Nat.lt_of_not_le hlen, ?_⟩
      rw [not_and_or, not_not, Nat.not_lt] at hbytes
      exact hbytes

/-- The state once a packet with room for it is queued. -/
theorem pushRx_joins (h : (s.pushRx p).1 = true) : Joins p s (s.pushRx p).2 := by
  rcases s.pushRx_cases p with hcase | hcase
  · rw [hcase] at h
    cases h
  · rw [hcase]
    exact ⟨rfl, rfl⟩

/-- `queue_host_data` queues through `push_rx`. -/
theorem queueHostData_joins (guestCid : BitVec 64) (s : Shared)
    (key : ConnKey) (id : Nat) (data : List UInt8) :
    ((s.queueHostData guestCid key id data).2.rx = s.rx ∧
      (s.queueHostData guestCid key id data).2.rxBytes = s.rxBytes) ∨
    ∃ p, (s.pushRx p).1 = true ∧ Joins p s (s.queueHostData guestCid key id data).2 := by
  unfold Shared.queueHostData
  split
  · exact .inl ⟨rfl, rfl⟩
  next e _ =>
    dsimp only
    split
    · exact .inl ⟨rfl, rfl⟩
    · split
      · exact .inl ⟨rfl, rfl⟩
      next went hpush =>
        have hroom := congrArg Prod.fst hpush
        have hjoins := pushRx_joins hroom
        rw [hpush] at hjoins
        exact .inr ⟨_, hroom, hjoins⟩

theorem queueStep_exec {o : Op} {a : Ans o}
    (hex : s.exec guestCid t c o = some (a, s')) : QueueStep o s s' := by
  by_cases ho : ¬ Queueing o
  · obtain ⟨hrx, hbytes⟩ := (framed_exec hex).queue ho
    exact .same hrx hbytes
  cases o with
  | pushRx hdr =>
    rcases s.pushRx_cases (.control hdr) with h | h
    all_goals
      simp only [Shared.exec, h] at hex
      cases hex
    · exact .same rfl rfl
    · exact .push _ (congrArg Prod.fst h) ⟨rfl, rfl⟩
  | queueHostData key id data =>
    cases hex
    rcases queueHostData_joins guestCid s key id data with
      ⟨hrx, hbytes⟩ | ⟨p, hroom, hjoins⟩
    · exact .same hrx hbytes
    · exact .push p hroom hjoins
  | popRx =>
    obtain ⟨-, -, rfl⟩ | ⟨p, rest, hrx, -, rfl⟩ := popRx_cases hex
    · exact .same rfl rfl
    · exact .pop p hrx rfl
  | requeueRxFront p =>
    cases hex
    exact .requeue p rfl rfl rfl
  | _ => exact absurd (fun h => h) ho

-- ==== what is kept

/-- The count is that of the queued payloads. -/
def Counted (s : Shared) : Prop := s.rxBytes = s.queuedBytes

/-- Both caps hold. -/
def WithinCaps (s : Shared) : Prop :=
  s.rxBytes ≤ rxBacklogMax ∧ s.rx.length ≤ rxPacketsMax

theorem counted_step {o : Op} (h : Counted s) (hstep : QueueStep o s s') : Counted s' := by
  unfold Counted Shared.queuedBytes at *
  cases hstep with
  | same hrx hbytes => rw [hrx, hbytes, h]
  | push p _ hjoins => rw [hjoins.1, hjoins.2, h]; simp
  | pop p hrx hbytes => rw [hbytes, h, hrx]; simp
  | requeue p _ hrx hbytes =>
    rw [hrx, hbytes, h]
    simp [Nat.add_comm]

/-- A packet that finds room keeps both caps, at either end. -/
theorem withinCaps_of_room (h : WithinCaps s) (hroom : (s.pushRx p).1 = true) :
    s.rxBytes + p.payload.length ≤ rxBacklogMax ∧ s.rx.length + 1 ≤ rxPacketsMax := by
  obtain ⟨hlen, hempty | hbytes⟩ := pushRx_room hroom
  · rw [hempty]
    exact ⟨h.1, hlen⟩
  · exact ⟨hbytes, hlen⟩

theorem withinCaps_step {o : Op} (h : WithinCaps s) (hok : findsRoom o s = true)
    (hstep : QueueStep o s s') : WithinCaps s' := by
  cases hstep with
  | same hrx hbytes =>
    unfold WithinCaps
    rw [hrx, hbytes]
    exact h
  | push p hroom hjoins =>
    unfold WithinCaps
    rw [hjoins.1, hjoins.2, List.length_append]
    exact withinCaps_of_room h hroom
  | pop p hrx hbytes =>
    obtain ⟨hb, hlen⟩ := h
    rw [hrx, List.length_cons] at hlen
    exact ⟨by omega, by omega⟩
  | requeue p ho hrx hbytes =>
    subst ho
    unfold WithinCaps
    rw [hrx, hbytes, List.length_cons]
    exact withinCaps_of_room h hok

end Step

section Runs

variable {guestCid : BitVec 64} {space : Mem.AddressSpace} {p : Pool Op Ans Shared}

theorem counted_reach {ok : Act Choice Move → Pool Op Ans Shared → Prop}
    (h : (machine guestCid).Reach ok (start guestCid space) p) :
    Counted p.sh := by
  refine h.shared rfl (fun hx hex => counted_step hx (queueStep_exec hex)) ?_
  intro m q q' hq henv
  cases henv
  cases m
  exact hq

theorem withinCaps_reach (h : (machine guestCid).Reach (everyStep findsRoom) (start guestCid space)
      p) : WithinCaps p.sh := by
  refine h.kept ⟨Nat.zero_le _, Nat.zero_le _⟩ ?_ ?_
  · intro q t c o k a x' hthr hok hq hex
    have hroom : findsRoom o q.sh = true := by
      simpa only [everyStep, hthr, Proc.head?, Option.all_some] using hok
    exact withinCaps_step hq hroom (queueStep_exec hex)
  · intro m q q' hq henv
    cases henv
    cases m
    exact hq

end Runs

-- ==== one over the cap

/-- The answer to a stray packet. -/
def strayRst : RxPacket := .control (strayHdr.reply opRst)

/-- A stray packet of the guest is answered with an RST, which is queued. -/
theorem stray_answered {s₀ p : Pool Op Ans Shared} {used : Bool}
    {k : Bool → Prog Unit} (h : (machine 3).Reach System.anyStep s₀ p)
    (hthr : p.thr 0 = .iter (drainRound 3) used k)
    (hstray : p.sh.conns strayHdr.guestKey = none)
    (hroom : p.sh.rx.length < rxPacketsMax) :
    (machine 3).Reach System.anyStep s₀ ⟨{ p.sh with rx := p.sh.rx ++ [strayRst] }.call 0,
        Function.update p.thr 0 (.iter (drainRound 3) true k)⟩ := by
  have hask : (machine 3).exec 0 default (.onPacket strayHdr 0) p.sh = some (none, p.sh) := by
    simp only [machine, Shared.exec, Shared.onPacket, hstray]
  have hpush : p.sh.pushRx strayRst = (true, { p.sh with rx := p.sh.rx ++ [strayRst] }) := by
    unfold Shared.pushRx
    rw [if_neg (Nat.not_le.mpr hroom)]
    rfl
  have hrst : (machine 3).exec 0 default (.pushRx (strayHdr.reply opRst)) p.sh =
      some (true, { p.sh with rx := p.sh.rx ++ [strayRst] }.call 0) := by
    simp only [machine, Shared.exec]
    rw [show RxPacket.control (strayHdr.reply opRst) = strayRst from rfl, hpush]
  rw [show p = ⟨p.sh, Function.update p.thr 0 (.iter (drainRound 3) used k)⟩ by
    rw [← hthr, Function.update_eq_self]] at h
  have h₁ := h.round default rfl
  have h₂ := h₁.op (o := .nextPacket) (c := onPacketOf strayHdr []) rfl rfl
  have h₃ := h₂.op (o := .onPacket strayHdr 0) (c := default) rfl hask
  have h₄ := h₃.op (o := .pushRx (strayHdr.reply opRst)) (c := default) rfl hrst
  exact h₄.op (o := .pushUsed) (c := default) rfl rfl

/-- The guest posts a chain too small for a header and opens a connection.
The host peer closes its end, and the delivery of the SHUTDOWN has the chain
in hand. The guest goes on with a stray packet. -/
def smallChain : List (Act Choice Move) :=
  steps 0 15 { (default : Choice) with job := .kickRx, chains := [⟨0, []⟩] } ++
    steps 0 4 (onJob .kickTx) ++ steps 0 10 (onHdr opRequest) ++
    steps 1 15 (onJob (.reader ⟨10, 5000⟩ 0)) ++
    steps 0 5 (onPacketOf strayHdr [])

def paired : Pool Op Ans Shared :=
  ((machine 3).runAll System.anyStep smallChain (start 3 oneRam)).get rfl

/-- The same place with other packets queued. -/
def pairedWith (rx : List RxPacket) : Pool Op Ans Shared :=
  { paired with sh := { paired.sh with rx := rx } }

theorem paired_reach : (machine 3).Reach System.anyStep (start 3 oneRam) paired :=
  System.reach_of_runAll .init (Option.some_get _).symm

/-- The queue after `n` more stray packets. -/
def flood (n : Nat) : List RxPacket := paired.sh.rx ++ List.replicate n strayRst

theorem length_flood (n : Nat) : (flood n).length = n + 3 := by
  unfold flood
  rw [List.length_append, List.length_replicate, Nat.add_comm]
  rfl

theorem flood_reach (n : Nat) (hn : n + 3 ≤ rxPacketsMax) :
    (machine 3).Reach System.anyStep (start 3 oneRam) (pairedWith (flood n)) := by
  induction n with
  | zero => exact paired_reach
  | succ n ih =>
    have hroom : (flood n).length < rxPacketsMax := by
      rw [length_flood]
      omega
    have h := stray_answered (ih (by omega)) rfl rfl hroom
    have hmore : flood (n + 1) = flood n ++ [strayRst] := by
      unfold flood
      rw [List.replicate_succ', List.append_assoc]
    have hsame : pairedWith (flood n ++ [strayRst]) =
        ⟨{ paired.sh with rx := flood n ++ [strayRst] }.call 0,
          Function.update paired.thr 0 (paired.thr 0)⟩ := by
      rw [Function.update_eq_self]
      rfl
    rw [hmore, hsame]
    exact h

/-- The delivery takes the first packet off the queue, and is about to put
it back. -/
theorem paired_pops (q : RxPacket) (rest : List RxPacket)
    (h : (machine 3).Reach System.anyStep (start 3 oneRam) (pairedWith (q :: rest))) :
    ∃ p used k k', (machine 3).Reach System.anyStep (start 3 oneRam) p ∧
      p.sh.rx = rest ∧ p.sh.conns strayHdr.guestKey = none ∧
      p.thr 0 = .iter (drainRound 3) used k ∧
      p.thr 1 = .op (.requeueRxFront q) k' :=
  ⟨_, _, _, _, h.next (t := 1) (o := .popRx) (c := default) rfl rfl, rfl, rfl, rfl, rfl⟩

/-- A stray packet takes the place of the packet that is then put back. -/
theorem requeue_over_cap :
    ∃ p, (machine 3).Reach System.anyStep (start 3 oneRam) p ∧
      rxPacketsMax < p.sh.rx.length := by
  have hfull := flood_reach (rxPacketsMax - 3) (by decide)
  obtain ⟨q, rest, hq⟩ : ∃ q rest, flood (rxPacketsMax - 3) = q :: rest :=
    ⟨_, _, rfl⟩
  have hlen := length_flood (rxPacketsMax - 3)
  rw [hq] at hfull hlen
  obtain ⟨p, used, k, k', hp, hrx, hstray, hdrain, hback⟩ :=
    paired_pops q rest hfull
  have hroom : p.sh.rx.length + 1 = rxPacketsMax := by
    rw [hrx]
    exact hlen
  have h₁ := stray_answered hp hdrain hstray (by omega)
  rw [← Function.update_of_ne Nat.one_ne_zero
    (.iter (drainRound 3) true k) p.thr] at hback
  have h₂ := h₁.next (t := 1) (o := .requeueRxFront q) (c := default) hback rfl
  refine ⟨_, h₂, ?_⟩
  show rxPacketsMax < (q :: (p.sh.rx ++ [strayRst])).length
  rw [List.length_cons, List.length_append, List.length_singleton]
  omega

-- ==== the caps

/-- The count is the sum of the queued payloads in every state. Both caps
hold in every state that is reached by putting packets back only where they
find room. -/
theorem backlog_capped {guestCid : BitVec 64} {space : Mem.AddressSpace}
    {p : Pool Op Ans Shared}
    (h : (machine guestCid).Reach System.anyStep (start guestCid space) p) :
    p.sh.rxBytes = p.sh.queuedBytes ∧
    ((machine guestCid).Reach (everyStep findsRoom) (start guestCid space) p →
      p.sh.rxBytes ≤ rxBacklogMax ∧ p.sh.rx.length ≤ rxPacketsMax) :=
  ⟨counted_reach h, withinCaps_reach⟩

/-- The delivery puts its packet back while the queue is short. -/
theorem backlog_capped_requeued :
    ∃ p, (machine 3).Reach System.anyStep (start 3 oneRam) p ∧
      (machine 3).Reach (everyStep findsRoom) (start 3 oneRam) p ∧
      p.sh.pending = [] ∧ p.sh.rx.length = 3 ∧
      p.sh.rxBytes = p.sh.queuedBytes ∧ p.sh.rxBytes ≤ rxBacklogMax ∧
      p.sh.rx.length ≤ rxPacketsMax := by
  obtain ⟨p, hreach, hp⟩ : ∃ p, (machine 3).Reach (everyStep findsRoom)
      (start 3 oneRam) p ∧ p.sh.pending = [] ∧ p.sh.rx.length = 3 :=
    System.exists_reach (smallChain ++ steps 1 2 default) (by decide)
  obtain ⟨hcount, hcaps⟩ := backlog_capped hreach.any
  exact ⟨p, hreach.any, hreach, hp.1, hp.2, hcount, hcaps hreach⟩

end Rshyve.Virtio.Vsock
