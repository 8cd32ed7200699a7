/-
# The kernel import

An import writes nothing before its checks have passed, and then writes to
one plan: the system classes in the local order, then one vCPU after the
other, each with its items in a fixed order. What the kernel answers only
decides how far along the plan the import gets.

`Accepted` says what the checks ask for, without the order they ask in.
-/
import Rshyve.Migrate.State

namespace Rshyve.Migrate

-- ==== the plan

/-- The kernel, as what it answers to a write after the writes so far. -/
abbrev Kernel : Type := List KernelWrite → KernelWrite → Except MigrateError Unit

/-- A sink that keeps every write that was tried. -/
def recording (kernel : Kernel) : ImportSink (StateM (List KernelWrite)) :=
  fun w => ExceptT.mk fun log => (kernel log w, log ++ [w])

/-- The vCPU a write is for. -/
def KernelWrite.vcpu : KernelWrite → Option Int
  | .writeClass _ _ vcpuid _ => vcpuid
  | .writeReg vcpuid _ => some vcpuid
  | .setRunState vcpuid _ _ => some vcpuid

/-- The register writes of a vCPU. -/
def VcpuStatePayload.regWrites (v : VcpuStatePayload) : List RegWrite :=
  match vcpuRegWrites v.vcpuid v.registers with
  | .ok writes => writes
  | .error _ => []

/-- The items of one vCPU, in the order they are written. -/
def VcpuStatePayload.items (v : VcpuStatePayload) : List KernelWrite :=
  .writeClass vdcMsr 1 (some v.vcpuid) v.msrs :: .writeClass vdcLapic 1 (some v.vcpuid) v.lapic
    :: (v.regWrites.map (.writeReg v.vcpuid) ++ [.setRunState v.vcpuid v.runState v.sipiVector,
        .writeClass vdcVmmArch 1 (some v.vcpuid) v.vmmArch])

/-- The write of one system device. -/
def DevicePayload.item (d : DevicePayload) : KernelWrite :=
  .writeClass d.cls d.version none d.data

/-- `w` writes the state the payload has for the class of `entry`. -/
def WritesClass (state : KernelState) (entry : String × Nat × Nat) (w : KernelWrite) : Prop :=
  ∃ d ∈ state.devices, d.cls = entry.2.1 ∧ w = d.item

-- ==== running along

section Along

variable {kernel : Kernel}

/-- The program writes along `plan`: it stops somewhere on it, and only a
failure stops it before the end. -/
def Along (plan : List KernelWrite)
    (p : ExceptT MigrateError (StateM (List KernelWrite)) Unit) : Prop :=
  ∀ log, ∃ r written, p.run log = (r, log ++ written) ∧ written <+: plan ∧
    (r = .ok () → written = plan)

theorem Along.done : Along [] (pure ()) :=
  fun log => ⟨.ok (), [], by rw [List.append_nil]; rfl, List.prefix_rfl, fun _ => rfl⟩

theorem Along.write (kernel : Kernel) (w : KernelWrite) : Along [w] (recording kernel w) :=
  fun log => ⟨kernel log w, [w], rfl, List.prefix_rfl, fun _ => rfl⟩

section Run

variable {α : Type} {p : ExceptT MigrateError (StateM (List KernelWrite)) α}
  {q : α → ExceptT MigrateError (StateM (List KernelWrite)) Unit}
  {log log' : List KernelWrite}

theorem run_bind_ok {a : α} (h : p.run log = (.ok a, log')) :
    (p >>= q).run log = (q a).run log' := by
  show (match p.run log with
    | (r, log) => ExceptT.bindCont q r log) = _
  rw [h]
  rfl

theorem run_bind_error {e : MigrateError} (h : p.run log = (.error e, log')) :
    (p >>= q).run log = (.error e, log') := by
  show (match p.run log with
    | (r, log) => ExceptT.bindCont q r log) = _
  rw [h]
  rfl

end Run

theorem Along.seq {xs ys : List KernelWrite}
    {p q : ExceptT MigrateError (StateM (List KernelWrite)) Unit}
    (hp : Along xs p) (hq : Along ys q) : Along (xs ++ ys) (do p; q) := by
  intro log
  obtain ⟨r, written, hrun, hpre, hall⟩ := hp log
  cases r with
  | error e =>
    exact ⟨.error e, written, run_bind_error hrun, hpre.trans (List.prefix_append xs ys), nofun⟩
  | ok u =>
    obtain ⟨r', written', hrun', hpre', hall'⟩ := hq (log ++ written)
    refine ⟨r', written ++ written', ?_, ?_, ?_⟩
    · rw [← List.append_assoc]
      exact (run_bind_ok hrun).trans hrun'
    · rw [hall rfl]
      exact (List.prefix_append_right_inj xs).2 hpre'
    · intro h
      rw [hall rfl, hall' h]

theorem Along.forM {α : Type} {xs : List α} {plan : α → List KernelWrite}
    {f : α → ExceptT MigrateError (StateM (List KernelWrite)) Unit}
    (h : ∀ x ∈ xs, Along (plan x) (f x)) :
    Along (xs.flatMap plan) (xs.forM f) := by
  induction xs with
  | nil => exact Along.done
  | cons x xs ih =>
    obtain ⟨hx, hxs⟩ := List.forall_mem_cons.1 h
    exact hx.seq (ih hxs)

end Along

-- ==== the checks

variable {es : List (String × Nat × Nat)} {v : VcpuStatePayload}

section Checks

variable (layouts : List VersionEntry)

/-- A blob of this length has the shape the local kernel has for the class
and version. -/
def BlobFits (cls version len : Nat) : Prop :=
  len ≠ 0 ∧ ∃ entry, findLayout layouts cls version = some entry ∧
    (entry.lenPerItem ≠ 0 → len % entry.lenPerItem = 0) ∧
    (entry.lenPerItem = 0 → entry.lenExpect ≠ 0 → len = entry.lenExpect)

/-- The same for a class of field entries, whose size has to be the one this
build writes. -/
def FieldsFit (cls version len : Nat) : Prop :=
  BlobFits layouts cls version len ∧ (findLayout layouts cls version).map VersionEntry.lenPerItem =
      some fieldEntryLen

/-- What one vCPU's state has to be. -/
structure VcpuFits (numCpus : Nat) (v : VcpuStatePayload) : Prop where
  nonneg : 0 ≤ v.vcpuid
  lt : v.vcpuid < numCpus
  msrs : FieldsFit layouts vdcMsr 1 v.msrs.length
  vmmArch : FieldsFit layouts vdcVmmArch 1 v.vmmArch.length
  lapic : BlobFits layouts vdcLapic 1 v.lapic.length
  present : v.registers ≠ []
  registers : ∃ ws, parseVcpuRegs v.vcpuid v.registers = some (.ok ws)

/-- What a payload has to be: one state for each vCPU and one for each
system class, all of the local kernel's shapes. -/
structure Accepted (state : KernelState) (numCpus : Nat) : Prop where
  count : state.vcpus.length = numCpus
  vcpus : ∀ v ∈ state.vcpus, VcpuFits layouts numCpus v
  ids : (state.vcpus.map VcpuStatePayload.vcpuid).Nodup
  devices : ∀ d ∈ state.devices, BlobFits layouts d.cls d.version d.data.length
  classes : (state.devices.map DevicePayload.cls).Perm
    (systemDevices.map fun e => e.2.1)

variable {layouts}

variable {what : String} {cls version len : Nat}

theorem checkClassBlob_iff : checkClassBlob layouts what cls version len = .ok () ↔
      BlobFits layouts cls version len := by
  unfold checkClassBlob BlobFits
  by_cases hlen : len = 0
  · rw [if_pos hlen]
    exact ⟨nofun, fun h => absurd hlen h.1⟩
  rw [if_neg hlen]
  cases findLayout layouts cls version with
  | none => exact ⟨nofun, nofun⟩
  | some entry =>
    dsimp only
    by_cases hitem : entry.lenPerItem = 0
    · rw [if_neg (not_not.2 hitem)]
      split
      case isTrue hbad =>
        refine ⟨nofun, ?_⟩
        rintro ⟨-, _, heq, -, htotal⟩
        cases heq
        exact absurd (htotal hitem hbad.1) hbad.2
      case isFalse hgood =>
        refine ⟨fun _ => ⟨hlen, entry, rfl, absurd hitem, ?_⟩, fun _ => rfl⟩
        exact fun _ htotal => not_not.1 fun hne => hgood ⟨htotal, hne⟩
    · rw [if_pos hitem]
      split
      case isTrue hbad =>
        refine ⟨nofun, ?_⟩
        rintro ⟨-, _, heq, hwhole, -⟩
        cases heq
        exact absurd (hwhole hitem) hbad
      case isFalse hgood =>
        exact ⟨fun _ => ⟨hlen, entry, rfl, fun _ => not_not.1 hgood,
          fun h => absurd h hitem⟩, fun _ => rfl⟩

theorem bind_eq_ok {ε α β : Type} {x : Except ε α} {f : α → Except ε β}
    {b : β} : x >>= f = .ok b ↔ ∃ a, x = .ok a ∧ f a = .ok b := by
  cases x with
  | error e => exact ⟨nofun, nofun⟩
  | ok a => exact ⟨fun h => ⟨a, rfl, h⟩, fun ⟨_, ha, h⟩ => by cases ha; exact h⟩

theorem seq_eq_ok {ε β : Type} {x : Except ε Unit} {y : Except ε β} {b : β} :
    (do x; y) = .ok b ↔ x = .ok () ∧ y = .ok b :=
  bind_eq_ok.trans ⟨fun ⟨_, h⟩ => h, fun h => ⟨_, h⟩⟩

theorem checkFieldEntryBlob_iff : checkFieldEntryBlob layouts what cls version len = .ok () ↔
      FieldsFit layouts cls version len := by
  unfold checkFieldEntryBlob FieldsFit
  rw [seq_eq_ok, checkClassBlob_iff]
  refine and_congr_right fun ⟨_, entry, hentry, _⟩ => ?_
  rw [hentry, Option.map_some, Option.getD_some, Option.some_inj]
  dsimp only
  split
  case isTrue hne => exact ⟨nofun, fun h => absurd h hne⟩
  case isFalse heq => exact ⟨fun _ => not_not.1 heq, fun _ => rfl⟩

theorem vcpuRegWrites_eq {vcpuid : Int} {data : List UInt8}
    {r : Except MigrateError (List RegWrite)} :
    vcpuRegWrites vcpuid data = r ↔ parseVcpuRegs vcpuid data = some r := by
  unfold vcpuRegWrites
  rw [← Option.some_inj, Option.some_get]

theorem checkVcpus_iff {numCpus : Nat} {vs : List VcpuStatePayload} {seen : List Int} :
    checkVcpus layouts numCpus vs seen = .ok () ↔ (∀ v ∈ vs, VcpuFits layouts numCpus v) ∧
      (vs.map VcpuStatePayload.vcpuid).Nodup ∧
      ∀ v ∈ vs, v.vcpuid ∉ seen := by
  induction vs generalizing seen with
  | nil => exact ⟨fun _ => ⟨nofun, .nil, nofun⟩, fun _ => rfl⟩
  | cons v vs ih =>
    unfold checkVcpus
    by_cases hid : v.vcpuid < 0 ∨ v.vcpuid.toNat ≥ numCpus
    · rw [if_pos hid]
      refine ⟨nofun, fun h => absurd (h.1 v (by simp)) fun hv => ?_⟩
      have h0 := hv.nonneg
      have h1 := hv.lt
      omega
    rw [if_neg hid]
    by_cases hseen : v.vcpuid ∈ seen
    · rw [if_pos hseen]
      exact ⟨nofun, fun h => absurd hseen (h.2.2 v (by simp))⟩
    rw [if_neg hseen, seq_eq_ok, seq_eq_ok, seq_eq_ok,
      checkFieldEntryBlob_iff, checkFieldEntryBlob_iff, checkClassBlob_iff]
    by_cases hregs : v.registers.length = 0
    · rw [if_pos hregs]
      refine ⟨fun h => (nomatch h.2.2.2), fun h => ?_⟩
      exact absurd (List.length_eq_zero_iff.1 hregs) (h.1 v (by simp)).present
    rw [if_neg hregs, bind_eq_ok]
    simp only [ih, vcpuRegWrites_eq, List.map_cons, List.nodup_cons,
      List.mem_cons, forall_eq_or_imp, not_or, List.mem_map, not_exists,
      not_and]
    constructor
    · rintro ⟨hmsr, harch, hlapic, ws, hws, hfits, hnodup, hnew⟩
      exact ⟨⟨⟨by omega, by omega, hmsr, harch, hlapic, fun h => hregs (h ▸ rfl), ws, hws⟩, hfits⟩,
        ⟨fun v' hv' => (hnew v' hv').1, hnodup⟩, hseen,
        fun v' hv' => (hnew v' hv').2⟩
    · rintro ⟨⟨hv, hfits⟩, ⟨hne, hnodup⟩, -, hnew⟩
      obtain ⟨ws, hws⟩ := hv.registers
      exact ⟨hv.msrs, hv.vmmArch, hv.lapic, ws, hws, hfits, hnodup,
        fun v' hv' => ⟨hne v' hv', hnew v' hv'⟩⟩

theorem find_systemDevices : (∃ e, systemDevices.find? (·.2.1 = cls) = some e) ↔
      cls ∈ systemDevices.map fun e => e.2.1 := by
  rw [← Option.isSome_iff_exists, List.find?_isSome]
  simp [List.mem_map]

theorem checkDevices_iff {ds : List DevicePayload} {seen seen' : List Nat} :
    checkDevices layouts ds seen = .ok seen' ↔
      (∀ d ∈ ds, BlobFits layouts d.cls d.version d.data.length ∧
        d.cls ∈ systemDevices.map (fun e => e.2.1) ∧ d.cls ∉ seen) ∧
      (ds.map DevicePayload.cls).Nodup ∧
      seen' = (ds.map DevicePayload.cls).reverse ++ seen := by
  induction ds generalizing seen with
  | nil =>
    refine ⟨fun h => ⟨nofun, .nil, ?_⟩, fun h => ?_⟩
    · cases h
      rfl
    · rw [h.2.2]
      rfl
  | cons d ds ih =>
    unfold checkDevices
    cases hfind : systemDevices.find? (·.2.1 = d.cls) with
    | none =>
      refine ⟨nofun, fun h => ?_⟩
      obtain ⟨e, he⟩ := find_systemDevices.2 (h.1 d (by simp)).2.1
      rw [hfind] at he
      cases he
    | some e =>
      have hknown := find_systemDevices.1 ⟨e, hfind⟩
      dsimp only
      by_cases hseen : d.cls ∈ seen
      · rw [if_pos hseen]
        exact ⟨nofun, fun h => absurd hseen (h.1 d (by simp)).2.2⟩
      rw [if_neg hseen, seq_eq_ok, checkClassBlob_iff, ih]
      simp only [List.map_cons, List.nodup_cons, List.mem_cons,
        forall_eq_or_imp, not_or, List.mem_map, not_exists, not_and,
        List.reverse_cons, List.append_assoc, List.singleton_append]
      constructor
      · rintro ⟨hd, hds, hnodup, rfl⟩
        exact ⟨⟨⟨hd, List.mem_map.1 hknown, hseen⟩, fun d' hd' =>
            ⟨(hds d' hd').1, (hds d' hd').2.1, (hds d' hd').2.2.2⟩⟩,
          ⟨fun d' hd' => (hds d' hd').2.2.1, hnodup⟩, rfl⟩
      · rintro ⟨⟨⟨hd, -, -⟩, hds⟩, ⟨hne, hnodup⟩, rfl⟩
        exact ⟨hd, fun d' hd' => ⟨(hds d' hd').1, (hds d' hd').2.1,
          hne d' hd', (hds d' hd').2.2⟩, hnodup, rfl⟩

theorem checkPresent_iff {seen : List Nat} :
    checkPresent seen es = .ok () ↔ ∀ e ∈ es, e.2.1 ∈ seen := by
  induction es with
  | nil => exact ⟨nofun, fun _ => rfl⟩
  | cons e es ih =>
    unfold checkPresent
    rw [List.forall_mem_cons, ← ih]
    split
    case isTrue h => exact ⟨fun hes => ⟨h, hes⟩, fun hes => hes.2⟩
    case isFalse h => exact ⟨nofun, fun hes => absurd hes.1 h⟩

theorem checkDeviceState_iff {state : KernelState} {numCpus : Nat} :
    checkDeviceState layouts state numCpus = .ok () ↔ Accepted layouts state numCpus := by
  unfold checkDeviceState
  by_cases hcount : state.vcpus.length = numCpus
  · rw [if_neg (not_not.2 hcount), seq_eq_ok, bind_eq_ok, checkVcpus_iff]
    simp only [checkDevices_iff, checkPresent_iff]
    constructor
    · rintro ⟨⟨hvcpus, hids, -⟩, _, ⟨hdevs, hnodup, rfl⟩, hpresent⟩
      refine ⟨hcount, hvcpus, hids, fun d hd => (hdevs d hd).1, ?_⟩
      refine (List.perm_ext_iff_of_nodup hnodup (by decide)).2 fun cls => ?_
      simp only [List.append_nil, List.mem_reverse] at hpresent
      constructor
      · intro hcls
        obtain ⟨d, hd, rfl⟩ := List.mem_map.1 hcls
        exact (hdevs d hd).2.1
      · intro hcls
        obtain ⟨e, he, rfl⟩ := List.mem_map.1 hcls
        exact hpresent e he
    · intro h
      refine ⟨⟨h.vcpus, h.ids, fun _ _ => List.not_mem_nil⟩, _,
        ⟨fun d hd => ⟨h.devices d hd, ?_, List.not_mem_nil⟩,
          h.classes.nodup_iff.2 (by decide), rfl⟩, fun e he => ?_⟩
      · exact h.classes.mem_iff.1 (List.mem_map_of_mem hd)
      · rw [List.append_nil, List.mem_reverse, h.classes.mem_iff]
        exact List.mem_map_of_mem he
  · rw [if_pos hcount]
    exact ⟨nofun, fun h => absurd h.count hcount⟩

end Checks

-- ==== the import

section Import

variable (kernel : Kernel) {layouts : List VersionEntry} {state : KernelState} {numCpus : Nat}

/-- A parse that succeeds is a step of its own that writes nothing. -/
theorem Along.parsed {plan : List KernelWrite} {ws : List RegWrite}
    {x : Except MigrateError (List RegWrite)} (hx : x = .ok ws)
    {q : List RegWrite → ExceptT MigrateError (StateM (List KernelWrite)) Unit}
    (hq : Along plan (q ws)) :
    Along plan (ExceptT.mk (pure x) >>= q) := by
  subst hx
  exact fun log => hq log

theorem along_importVcpu {ws : List RegWrite} (h : vcpuRegWrites v.vcpuid v.registers = .ok ws) :
    Along v.items (importVcpu (recording kernel) v) := by
  have hitems : v.items = [.writeClass vdcMsr 1 (some v.vcpuid) v.msrs]
        ++ ([.writeClass vdcLapic 1 (some v.vcpuid) v.lapic]
          ++ (ws.flatMap (fun w => [.writeReg v.vcpuid w])
            ++ ([.setRunState v.vcpuid v.runState v.sipiVector]
              ++ [.writeClass vdcVmmArch 1 (some v.vcpuid) v.vmmArch]))) := by
    simp [VcpuStatePayload.items, VcpuStatePayload.regWrites, h, List.map_eq_flatMap]
  rw [hitems]
  refine (Along.write kernel _).seq ((Along.write kernel _).seq
    (Along.parsed h (Along.seq (Along.forM fun w _ => Along.write kernel _) ?_)))
  exact (Along.write kernel _).seq (Along.write kernel _)

theorem along_importSystem (h : ∀ e ∈ es, e.2.1 ∈ state.devices.map DevicePayload.cls) :
    ∃ plan, List.Forall₂ (WritesClass state) es plan ∧
      Along plan (importSystem (recording kernel) state es) := by
  induction es with
  | nil => exact ⟨[], .nil, Along.done⟩
  | cons e es ih =>
    obtain ⟨he, hes⟩ := List.forall_mem_cons.1 h
    obtain ⟨plan, hplan, halong⟩ := ih hes
    obtain ⟨d, hd⟩ : ∃ d, state.devices.find? (·.cls = e.2.1) = some d := by
      rw [← Option.isSome_iff_exists, List.find?_isSome]
      obtain ⟨d, hd, hcls⟩ := List.mem_map.1 he
      exact ⟨d, hd, decide_eq_true hcls⟩
    have hcls : d.cls = e.2.1 := by
      have hp := List.find?_some hd
      exact of_decide_eq_true hp
    refine ⟨d.item :: plan, .cons ⟨d, List.mem_of_find?_eq_some hd, hcls, rfl⟩ hplan, ?_⟩
    unfold importSystem
    rw [hd]
    exact (Along.write kernel _).seq halong

theorem along_import (h : Accepted layouts state numCpus) :
    ∃ system, List.Forall₂ (WritesClass state) systemDevices system ∧
      Along (system ++ state.vcpus.flatMap VcpuStatePayload.items)
        (importDeviceStateInto layouts (recording kernel) state numCpus) := by
  have hfound : ∀ e ∈ systemDevices, e.2.1 ∈ state.devices.map DevicePayload.cls := by
    intro e he
    rw [h.classes.mem_iff]
    exact List.mem_map_of_mem he
  obtain ⟨system, hsystem, halong⟩ := along_importSystem kernel hfound
  refine ⟨system, hsystem, ?_⟩
  unfold importDeviceStateInto
  rw [checkDeviceState_iff.2 h]
  refine halong.seq (Along.forM fun v hv => ?_)
  obtain ⟨ws, hws⟩ := (h.vcpus v hv).registers
  exact along_importVcpu kernel (vcpuRegWrites_eq.2 hws)

/-- A payload that the checks refuse is not written at all. -/
theorem importDeviceStateInto_refused (h : ¬ Accepted layouts state numCpus) :
    ∃ e, (importDeviceStateInto layouts (recording kernel) state
      numCpus).run [] = (.error e, []) := by
  unfold importDeviceStateInto
  cases hcheck : checkDeviceState layouts state numCpus with
  | ok u => exact absurd (checkDeviceState_iff.1 hcheck) h
  | error e => exact ⟨e, rfl⟩

end Import

-- ==== order of payloads

/-- What is left of the writes for one vCPU. -/
def forVcpu (id : Option Int) (log : List KernelWrite) : List KernelWrite :=
  log.filter fun w => w.vcpu = id

theorem forVcpu_append (id : Option Int) (xs ys : List KernelWrite) :
    forVcpu id (xs ++ ys) = forVcpu id xs ++ forVcpu id ys :=
  List.filter_append xs ys

/-- Every item of a vCPU is for that vCPU. -/
theorem vcpu_of_mem_items {w : KernelWrite} (h : w ∈ v.items) : w.vcpu = some v.vcpuid := by
  simp only [VcpuStatePayload.items, List.mem_cons, List.mem_append,
    List.mem_map, List.not_mem_nil, or_false] at h
  rcases h with rfl | rfl | ⟨_, _, rfl⟩ | rfl | rfl <;> rfl

theorem forVcpu_items (v : VcpuStatePayload) : forVcpu (some v.vcpuid) v.items = v.items :=
  List.filter_eq_self.2 fun _ hw => decide_eq_true (vcpu_of_mem_items hw)

theorem forVcpu_items_ne {id : Option Int} (h : id ≠ some v.vcpuid) : forVcpu id v.items = [] :=
  List.filter_eq_nil_iff.2 fun _ hw heq =>
    h ((of_decide_eq_true heq).symm.trans (vcpu_of_mem_items hw))

variable {vs : List VcpuStatePayload}

theorem forVcpu_flatMap_ne {id : Option Int} (h : ∀ v ∈ vs, id ≠ some v.vcpuid) :
    forVcpu id (vs.flatMap VcpuStatePayload.items) = [] := by
  induction vs with
  | nil => rfl
  | cons v vs ih =>
    obtain ⟨hv, hvs⟩ := List.forall_mem_cons.1 h
    rw [List.flatMap_cons, forVcpu_append, forVcpu_items_ne hv, ih hvs]
    rfl

/-- With one state for each vCPU, a vCPU's writes are its items. -/
theorem forVcpu_flatMap (hnodup : (vs.map VcpuStatePayload.vcpuid).Nodup) (hv : v ∈ vs) :
    forVcpu (some v.vcpuid) (vs.flatMap VcpuStatePayload.items) = v.items := by
  induction vs with
  | nil => cases hv
  | cons v' vs ih =>
    rw [List.map_cons, List.nodup_cons] at hnodup
    rw [List.flatMap_cons, forVcpu_append]
    rcases List.mem_cons.1 hv with rfl | hv
    · have hrest : forVcpu (some v.vcpuid) (vs.flatMap VcpuStatePayload.items) = [] := by
        refine forVcpu_flatMap_ne fun v' hv' heq => hnodup.1 ?_
        rw [Option.some.inj heq]
        exact List.mem_map_of_mem hv'
      rw [forVcpu_items, hrest, List.append_nil]
    · have hne : some v.vcpuid ≠ some v'.vcpuid := by
        intro heq
        refine hnodup.1 ?_
        rw [← Option.some.inj heq]
        exact List.mem_map_of_mem hv
      rw [forVcpu_items_ne hne, ih hnodup.2 hv, List.nil_append]

variable {state : KernelState}

/-- The writes of the system classes are for no vCPU. -/
theorem vcpu_of_mem_system {system : List KernelWrite}
    (h : List.Forall₂ (WritesClass state) es system) {w : KernelWrite}
    (hw : w ∈ system) : w.vcpu = none := by
  induction h with
  | nil => cases hw
  | cons hclass _ ih =>
    rcases List.mem_cons.1 hw with rfl | hw
    · obtain ⟨d, -, -, rfl⟩ := hclass
      rfl
    · exact ih hw

/-- Two payloads with the same devices, one for each class, lead to the same
writes of the system classes. -/
theorem system_unique {state' : KernelState} (hperm : state'.devices.Perm state.devices)
    (hnodup : (state.devices.map DevicePayload.cls).Nodup)
    {system system' : List KernelWrite}
    (h : List.Forall₂ (WritesClass state) es system)
    (h' : List.Forall₂ (WritesClass state') es system') : system' = system := by
  induction h generalizing system' with
  | nil =>
    cases h'
    rfl
  | cons hclass _ ih =>
    cases h' with
    | cons hclass' hrest' =>
      obtain ⟨d, hd, hcls, rfl⟩ := hclass
      obtain ⟨d', hd', hcls', rfl⟩ := hclass'
      have heq : d' = d := List.inj_on_of_nodup_map hnodup
        (hperm.mem_iff.1 hd') hd (hcls'.trans hcls.symm)
      rw [heq, ih hrest']

section Plan

variable {state : KernelState} {system : List KernelWrite}
  (h : List.Forall₂ (WritesClass state) systemDevices system)
  (vs : List VcpuStatePayload)
include h

theorem forVcpu_none_plan :
    forVcpu none (system ++ vs.flatMap VcpuStatePayload.items) = system := by
  have hsystem : forVcpu none system = system :=
    List.filter_eq_self.2 fun _ hw => decide_eq_true (vcpu_of_mem_system h hw)
  rw [forVcpu_append, hsystem, forVcpu_flatMap_ne fun v _ => (Option.some_ne_none v.vcpuid).symm,
    List.append_nil]

theorem forVcpu_some_plan (id : Int) :
    forVcpu (some id) (system ++ vs.flatMap VcpuStatePayload.items) =
      forVcpu (some id) (vs.flatMap VcpuStatePayload.items) := by
  have hsystem : forVcpu (some id) system = [] := by
    refine List.filter_eq_nil_iff.2 fun w hw heq => ?_
    have hsome := of_decide_eq_true heq
    rw [vcpu_of_mem_system h hw] at hsome
    cases hsome
  rw [forVcpu_append, hsystem, List.nil_append]

end Plan

variable {numCpus : Nat}

/-- One state for each vCPU id below the number of vCPUs. -/
theorem ids_perm {layouts : List VersionEntry} (h : Accepted layouts state numCpus) :
    (state.vcpus.map VcpuStatePayload.vcpuid).Perm ((List.range numCpus).map Int.ofNat) := by
  refine (List.subperm_of_subset h.ids fun id hid => ?_).perm_of_length_le ?_
  · obtain ⟨v, hv, rfl⟩ := List.mem_map.1 hid
    have hfits := h.vcpus v hv
    refine List.mem_map.2 ⟨v.vcpuid.toNat, List.mem_range.2 ?_, ?_⟩
    · have := hfits.nonneg
      have := hfits.lt
      omega
    · exact Int.toNat_of_nonneg hfits.nonneg
  · simp [h.count]

/-- What an import does. -/
def imported (kernel : Kernel) (versions : Except String (List VersionEntry))
    (state : KernelState) (numCpus : Nat) :
    Except MigrateError Unit × List KernelWrite :=
  (importDeviceState (recording kernel) versions state numCpus).run []

theorem imported_ok {kernel : Kernel}
    {versions : Except String (List VersionEntry)}
    (h : (imported kernel versions state numCpus).1 = .ok ()) :
    ∃ layouts system, versions = .ok layouts ∧ Accepted layouts state numCpus ∧
      List.Forall₂ (WritesClass state) systemDevices system ∧
      (imported kernel versions state numCpus).2 =
        system ++ state.vcpus.flatMap VcpuStatePayload.items := by
  cases versions with
  | error e => cases h
  | ok layouts =>
    by_cases hacc : Accepted layouts state numCpus
    · obtain ⟨system, hsystem, halong⟩ := along_import kernel hacc
      obtain ⟨r, written, hrun, -, hall⟩ := halong []
      have himported : imported kernel (.ok layouts) state numCpus = (r, [] ++ written) := hrun
      rw [himported] at h ⊢
      exact ⟨layouts, system, rfl, hacc, hsystem, hall h⟩
    · obtain ⟨e, he⟩ := importDeviceStateInto_refused kernel hacc
      have himported : imported kernel (.ok layouts) state numCpus = (.error e, []) := he
      rw [himported] at h
      cases h

/-- An import whose checks fail writes nothing. One that succeeds has
written the system classes, each once and in the local order, and then the
vCPUs, each id once with its items in the fixed order; and the same items in
another order lead to the same writes for the system and for each vCPU. -/
theorem import_ordered (kernel : Kernel)
    (versions : Except String (List VersionEntry)) (state : KernelState)
    (numCpus : Nat) :
    ((¬ ∃ layouts, versions = .ok layouts ∧ Accepted layouts state numCpus) →
      ∃ e, imported kernel versions state numCpus = (.error e, [])) ∧
    ((imported kernel versions state numCpus).1 = .ok () →
      (∃ system, List.Forall₂ (WritesClass state) systemDevices system ∧
        (imported kernel versions state numCpus).2 =
          system ++ state.vcpus.flatMap VcpuStatePayload.items) ∧
      (state.vcpus.map VcpuStatePayload.vcpuid).Perm
        ((List.range numCpus).map Int.ofNat) ∧
      (∀ v ∈ state.vcpus,
        forVcpu (some v.vcpuid) (imported kernel versions state numCpus).2 =
          v.items) ∧
      ∀ kernel' versions' state', state'.vcpus.Perm state.vcpus →
        state'.devices.Perm state.devices →
        (imported kernel' versions' state' numCpus).1 = .ok () →
        ∀ id, forVcpu id (imported kernel' versions' state' numCpus).2 =
          forVcpu id (imported kernel versions state numCpus).2) := by
  constructor
  · intro h
    cases versions with
    | error e => exact ⟨_, rfl⟩
    | ok layouts =>
      exact importDeviceStateInto_refused kernel fun hacc =>
        h ⟨layouts, rfl, hacc⟩
  · intro h
    obtain ⟨layouts, system, -, hacc, hsystem, hlog⟩ := imported_ok h
    refine ⟨⟨system, hsystem, hlog⟩, ids_perm hacc, fun v hv => ?_, ?_⟩
    · rw [hlog, forVcpu_some_plan hsystem, forVcpu_flatMap hacc.ids hv]
    intro kernel' versions' state' hvcpus hdevices h' id
    obtain ⟨layouts', system', -, hacc', hsystem', hlog'⟩ := imported_ok h'
    rw [hlog, hlog']
    cases id with
    | none =>
      rw [forVcpu_none_plan hsystem, forVcpu_none_plan hsystem']
      exact system_unique hdevices (hacc.classes.nodup_iff.2 (by decide))
        hsystem hsystem'
    | some id =>
      rw [forVcpu_some_plan hsystem, forVcpu_some_plan hsystem']
      by_cases hid : ∃ v ∈ state.vcpus, v.vcpuid = id
      · obtain ⟨v, hv, rfl⟩ := hid
        rw [forVcpu_flatMap hacc.ids hv,
          forVcpu_flatMap hacc'.ids (hvcpus.mem_iff.2 hv)]
      · have hnone : ∀ v ∈ state.vcpus, some id ≠ some v.vcpuid :=
          fun v hv heq => hid ⟨v, hv, (Option.some.inj heq).symm⟩
        rw [forVcpu_flatMap_ne hnone, forVcpu_flatMap_ne fun v hv =>
          hnone v (hvcpus.mem_iff.1 hv)]

end Rshyve.Migrate
