/-
# The devices of the two hosts

`check_topology` compares two sorted lists of display texts. A text names one
device (`text_injective`): the digits and dots of an address hold no `@`, so
the last `@` ends the kind, whatever the kind is; so the lists are equal
exactly when the devices are the same up to order.

`restore_devices` checks the whole payload before it calls a hook. What the
checks come to is that the entries and the local devices correspond one to
one by address (`ByAddress`).
-/
import Rshyve.Migrate.Site

namespace Rshyve.Migrate

open Conc Proc
-- ==== the texts

/-- The first occurrence of a separator splits a list in one way. -/
theorem split_first {α : Type} {a : α} {xs xs' ys ys' : List α}
    (hx : a ∉ xs) (hx' : a ∉ xs') (h : xs ++ a :: ys = xs' ++ a :: ys') :
    xs = xs' ∧ ys = ys' := by
  induction xs generalizing xs' with
  | nil =>
    cases xs' with
    | nil => exact ⟨rfl, (List.cons.inj h).2⟩
    | cons b bs =>
      obtain rfl : a = b := (List.cons.inj h).1
      exact absurd List.mem_cons_self hx'
  | cons x xs ih =>
    cases xs' with
    | nil =>
      obtain rfl : x = a := (List.cons.inj h).1
      exact absurd List.mem_cons_self hx
    | cons b bs =>
      obtain ⟨rfl, htail⟩ := List.cons.inj h
      obtain ⟨rfl, rfl⟩ := ih (fun hm => hx (List.mem_cons_of_mem _ hm))
        (fun hm => hx' (List.mem_cons_of_mem _ hm)) htail
      exact ⟨rfl, rfl⟩

/-- So does the last. -/
theorem split_last {α : Type} {a : α} {xs xs' ys ys' : List α}
    (hy : a ∉ ys) (hy' : a ∉ ys') (h : xs ++ a :: ys = xs' ++ a :: ys') :
    xs = xs' ∧ ys = ys' := by
  have hrev := congrArg List.reverse h
  simp only [List.reverse_append, List.reverse_cons, List.append_assoc,
    List.singleton_append] at hrev
  obtain ⟨hys, hxs⟩ := split_first (by simpa using hy) (by simpa using hy') hrev
  exact ⟨List.reverse_injective hxs, List.reverse_injective hys⟩

theorem notMem_digits {c : Char} (hc : c.isDigit = false) (n : Nat) : c ∉ (toString n).toList := by
  rw [Nat.toString_eq_ofList_toDigits, String.toList_ofList]
  intro hmem
  rw [Nat.isDigit_of_mem_toDigits (by decide) (by decide) hmem] at hc
  cases hc

theorem WireBdf.toList_text (b : WireBdf) : b.text.toList = (toString b.bus).toList ++
      '.' :: ((toString b.dev).toList ++ '.' :: (toString b.func).toList) := by
  simp [WireBdf.text]

theorem DeviceIdentity.toList_text (d : DeviceIdentity) :
    d.text.toList = d.kind.toList ++ '@' :: d.bdf.text.toList := by
  simp [DeviceIdentity.text]

theorem toString_inj {n m : Nat} (h : (toString n).toList = (toString m).toList) : n = m := by
  rw [Nat.toString_eq_ofList_toDigits, Nat.toString_eq_ofList_toDigits,
    String.toList_ofList, String.toList_ofList] at h
  calc n = Nat.ofDigitChars 10 (Nat.toDigits 10 n) 0 :=
        Nat.ofDigitChars_ten_toDigits.symm
    _ = Nat.ofDigitChars 10 (Nat.toDigits 10 m) 0 := by rw [h]
    _ = m := Nat.ofDigitChars_ten_toDigits

theorem WireBdf.text_injective : Function.Injective WireBdf.text := by
  intro b b' h
  have h := congrArg String.toList h
  rw [toList_text, toList_text] at h
  obtain ⟨hbus, h⟩ := split_first (notMem_digits (by decide) _) (notMem_digits (by decide) _) h
  obtain ⟨hdev, hfunc⟩ := split_first (notMem_digits (by decide) _) (notMem_digits (by decide) _) h
  cases b
  cases b'
  simp only [mk.injEq]
  exact ⟨toString_inj hbus, toString_inj hdev, toString_inj hfunc⟩

theorem at_notMem_text (b : WireBdf) : '@' ∉ b.text.toList := by
  have hdigits : ∀ n : Nat, '@' ∉ (toString n).toList :=
    notMem_digits (by decide)
  rw [WireBdf.toList_text]
  simp only [List.mem_append, List.mem_cons, not_or]
  exact ⟨hdigits _, by decide, hdigits _, by decide, hdigits _⟩

/-- A display text names one device. -/
theorem DeviceIdentity.text_injective : Function.Injective DeviceIdentity.text := by
  intro d d' h
  have h := congrArg String.toList h
  rw [toList_text, toList_text] at h
  obtain ⟨hkind, hbdf⟩ :=
    split_last (at_notMem_text _) (at_notMem_text _) h
  cases d
  cases d'
  simp only [mk.injEq]
  exact ⟨WireBdf.text_injective (String.toList_injective hbdf), String.toList_injective hkind⟩

-- ==== the topology

/-- The order `sort` uses on texts. -/
def textLe (a b : String) : Bool := (compare a b).isLE

theorem mergeSort_eq_iff_perm {xs ys : List String} :
    xs.mergeSort textLe = ys.mergeSort textLe ↔ xs.Perm ys := by
  have hsorted : ∀ zs : List String,
      (zs.mergeSort textLe).Pairwise fun a b => textLe a b = true := by
    refine List.pairwise_mergeSort ?_ ?_
    · intro a b c
      exact Std.TransCmp.isLE_trans
    · intro a b
      unfold textLe
      rw [show compare a b = (compare b a).swap from Std.OrientedCmp.eq_swap]
      cases compare b a <;> rfl
  constructor
  · intro h
    have hx := List.mergeSort_perm xs textLe
    rw [h] at hx
    exact hx.symm.trans (List.mergeSort_perm ys textLe)
  · intro h
    refine List.Perm.eq_of_pairwise ?_ (hsorted xs) (hsorted ys) ?_
    · intro a b _ _ hab hba
      exact Std.LawfulEqCmp.eq_of_compare (Std.OrientedCmp.isLE_antisymm hab hba)
    · exact ((List.mergeSort_perm xs textLe).trans h).trans (List.mergeSort_perm ys textLe).symm

variable {out : Outside}

/-- The check accepts exactly the same devices, in whatever order. -/
theorem checkTopology_iff {source «local» : List DeviceIdentity} :
    checkTopology out source «local» = .ok () ↔ source.Perm «local» := by
  unfold checkTopology
  dsimp only
  rw [← List.map_perm_map_iff DeviceIdentity.text_injective, ← mergeSort_eq_iff_perm]
  split
  next h => exact ⟨fun _ => h, fun _ => rfl⟩
  next h => exact ⟨fun h' => (nomatch h'), fun h' => absurd h' h⟩

-- ==== the payload

/-- The entries of a payload and the devices of this VM, one to one by
address. -/
structure ByAddress (entries : List DeviceStatePayload)
    (devices : List DeviceIdentity) : Prop where
  once : (entries.map DeviceStatePayload.bdf).Nodup
  known : ∀ e ∈ entries, ∃ d ∈ devices, d.bdf = e.bdf
  covered : ∀ d ∈ devices, ∃ e ∈ entries, e.bdf = d.bdf

variable {config : DestConfig} {entries : List DeviceStatePayload}

theorem checkEntries_iff {seen seen' : List WireBdf} :
    checkEntries config entries seen = .ok seen' ↔
      (∀ e ∈ entries, ∃ d ∈ config.devices, d.bdf = e.bdf) ∧
      (entries.map DeviceStatePayload.bdf).Nodup ∧
      (∀ e ∈ entries, e.bdf ∉ seen) ∧
      seen' = (entries.map DeviceStatePayload.bdf).reverse ++ seen := by
  induction entries generalizing seen with
  | nil =>
    constructor
    · intro h
      cases h
      exact ⟨nofun, List.nodup_nil, nofun, rfl⟩
    · rintro ⟨-, -, -, rfl⟩
      rfl
  | cons e entries ih =>
    unfold checkEntries
    have hany : (config.devices.any fun d => d.bdf == e.bdf) = true ↔
        ∃ d ∈ config.devices, d.bdf = e.bdf := by
      simp only [List.any_eq_true, beq_iff_eq]
    by_cases hknown : ∃ d ∈ config.devices, d.bdf = e.bdf
    · rw [hany.mpr hknown, Bool.not_true, if_neg Bool.false_ne_true]
      by_cases hseen : e.bdf ∈ seen
      · rw [if_pos (List.contains_iff_mem.mpr hseen)]
        refine ⟨fun h => (nomatch h), fun h => ?_⟩
        exact absurd hseen (h.2.2.1 e List.mem_cons_self)
      · rw [if_neg (fun h => hseen (List.contains_iff_mem.mp h)), ih]
        simp only [List.mem_cons, forall_eq_or_imp, List.map_cons,
          List.nodup_cons, List.mem_map, not_exists, not_and, not_or,
          List.reverse_cons, List.append_assoc, List.singleton_append]
        constructor
        · rintro ⟨hall, hnodup, hnew, rfl⟩
          exact ⟨⟨hknown, hall⟩, ⟨fun e' he' => (hnew e' he').1, hnodup⟩,
            ⟨hseen, fun e' he' => (hnew e' he').2⟩, rfl⟩
        · rintro ⟨⟨-, hall⟩, ⟨hfirst, hnodup⟩, ⟨-, hnew⟩, rfl⟩
          exact ⟨hall, hnodup, fun e' he' => ⟨hfirst e' he', hnew e' he'⟩, rfl⟩
    · rw [Bool.eq_false_iff.mpr (fun h => hknown (hany.mp h)), Bool.not_false, if_pos rfl]
      refine ⟨fun h => (nomatch h), fun h => ?_⟩
      exact absurd (h.1 e List.mem_cons_self) hknown

theorem checkComplete_iff {seen : List WireBdf} : checkComplete config seen = .ok () ↔
      ∀ d ∈ config.devices, d.bdf ∈ seen := by
  unfold checkComplete
  dsimp only
  constructor
  · intro h d hd
    split at h
    next hnone =>
      rw [List.find?_eq_none] at hnone
      have hmem : d.bdf ∈ (config.devices.map DeviceIdentity.bdf).mergeSort WireBdf.ble :=
        (List.mergeSort_perm _ _).mem_iff.mpr (List.mem_map_of_mem hd)
      simpa using hnone d.bdf hmem
    · cases h
  · intro h
    have hnone : ((config.devices.map DeviceIdentity.bdf).mergeSort
        WireBdf.ble).find? (fun bdf => !seen.contains bdf) = none := by
      rw [List.find?_eq_none]
      intro b hb
      obtain ⟨d, hd, rfl⟩ :=
        List.mem_map.mp ((List.mergeSort_perm _ _).mem_iff.mp hb)
      simpa using h d hd
    rw [hnone]

/-- Both checks pass exactly when the payload fits the devices. -/
theorem checks_iff {devState : DeviceState} :
    (∃ seen, checkEntries config devState.emulated [] = .ok seen ∧
      checkComplete config seen = .ok ()) ↔
    ByAddress devState.emulated config.devices := by
  simp only [checkEntries_iff, checkComplete_iff]
  constructor
  · rintro ⟨seen, ⟨hknown, honce, -, rfl⟩, hall⟩
    refine ⟨honce, hknown, fun d hd => ?_⟩
    simpa using hall d hd
  · rintro ⟨honce, hknown, hcovered⟩
    refine ⟨_, ⟨hknown, honce, fun _ _ => List.not_mem_nil, rfl⟩, ?_⟩
    intro d hd
    simpa using hcovered d hd

-- ==== the restore

/-- The hook calls that restore the entries, in order. -/
def restores (entries : List DeviceStatePayload) : List Session.Op :=
  entries.filterMap fun e =>
    e.state.map fun st => .hook (.restoreDevice e.bdf st)

/-- What `restore_devices` has done: nothing, and an error, for a payload
that does not fit; the Hyper-V part and then entries in order, all of them
unless a hook refuses, for one that does. -/
def RestoreDone (config : DestConfig) (devState : DeviceState) (s s' : Site)
    (r : Except MigrateError Unit) : Prop :=
  (¬ ByAddress devState.emulated config.devices → (∃ e, r = .error e) ∧ s'.made = s.made) ∧
  (ByAddress devState.emulated config.devices → ∃ calls rest, s'.made = s.made ++ calls ∧
      devState.hyperv.toList.map Session.Op.hypervRestore ++
        restores devState.emulated = calls ++ rest ∧
      (r = .ok () → rest = []))

theorem returns_restoreEntries {s : Site} :
    Returns (Site.answer out) (restoreEntries Session.destIo entries).run
      (fun s' r => ∃ calls rest, s'.made = s.made ++ calls ∧
        restores entries = calls ++ rest ∧ (r = .ok () → rest = [])) s := by
  induction entries generalizing s with
  | nil =>
    exact returns_ret ⟨[], [], (List.append_nil _).symm, rfl, fun _ => rfl⟩
  | cons e entries ih =>
    unfold restoreEntries
    cases hst : e.state with
    | none =>
      have hcalls : restores (e :: entries) = restores entries := by
        simp [restores, hst]
      rw [hcalls]
      exact ih
    | some st =>
      have hcalls : restores (e :: entries) =
          .hook (.restoreDevice e.bdf st) :: restores entries := by
        simp [restores, hst]
      rw [hcalls]
      refine Returns.tryThen (Returns.seq (returns_call ?_))
      have hans : Site.answer out (.hook (.restoreDevice e.bdf st)) s = (s.replies s.made.length,
            s.note (.hook (.restoreDevice e.bdf st))) := rfl
      rw [hans]
      cases s.replies s.made.length with
      | error err =>
        exact returns_ret ⟨[_], restores entries, rfl, rfl, fun h => (nomatch h)⟩
      | ok _ =>
        refine returns_ret (ih.mono ?_)
        rintro s' r ⟨calls, rest, hmade, hsplit, hok⟩
        refine ⟨.hook (.restoreDevice e.bdf st) :: calls, rest, ?_, ?_, hok⟩
        · rw [hmade, Site.note, List.append_assoc]
          rfl
        · rw [hsplit, List.cons_append]

theorem returns_restoreDevices {devState : DeviceState} {s : Site} : Returns (Site.answer out)
      (restoreDevices Session.destIo config devState).run
      (RestoreDone config devState s) s := by
  have hchecks := @checks_iff config devState
  -- a check that fails ends the function before any call
  have hfail : ∀ e : MigrateError, ¬ ByAddress devState.emulated config.devices →
      RestoreDone config devState s s (.error e) :=
    fun e hno => ⟨fun _ => ⟨⟨e, rfl⟩, rfl⟩, fun h => absurd h hno⟩
  refine Returns.tryThen (returns_ret ?_)
  cases hentries : checkEntries config devState.emulated [] with
  | error e =>
    refine hfail e fun h => ?_
    obtain ⟨seen, hok, -⟩ := hchecks.mpr h
    rw [hentries] at hok
    cases hok
  | ok seen =>
    refine Returns.tryThen (returns_ret ?_)
    cases hcomplete : checkComplete config seen with
    | error e =>
      refine hfail e fun h => ?_
      obtain ⟨seen', hok, hall⟩ := hchecks.mpr h
      rw [hentries] at hok
      cases hok
      rw [hcomplete] at hall
      cases hall
    | ok _ =>
      have hfits := hchecks.mp ⟨seen, hentries, hcomplete⟩
      refine Returns.mono ?_ fun s' r h => ⟨fun hno => absurd hfits hno, fun _ => h⟩
      refine Returns.tryThen ?_
      cases hhyperv : devState.hyperv with
      | none => exact returns_ret returns_restoreEntries
      | some h =>
        refine Returns.tryThen (Returns.seq (returns_call ?_))
        have hans : Site.answer out (.hypervRestore h) s =
            (s.hyperv, s.note (.hypervRestore h)) := rfl
        rw [hans]
        refine returns_ret ?_
        cases s.hyperv with
        | false =>
          exact returns_ret ⟨[_], restores devState.emulated, rfl, rfl, fun hok => (nomatch hok)⟩
        | true =>
          refine returns_ret (returns_restoreEntries.mono ?_)
          rintro s' r ⟨calls, rest, hmade, hsplit, hok⟩
          refine ⟨.hypervRestore h :: calls, rest, ?_, ?_, hok⟩
          · rw [hmade, Site.note, List.append_assoc]
            rfl
          · rw [hsplit]
            rfl

/-- The topology check accepts exactly when the two hosts' devices are the
same up to order. The restore applies state only when the payload and the
devices of this VM correspond one to one by address, and then, unless a hook
refuses, every state once; otherwise no hook is called. -/
theorem devices_matched (out : Outside) (config : DestConfig) :
    (∀ source : List DeviceIdentity,
      checkTopology out source config.devices = .ok () ↔
        source.Perm config.devices) ∧
    (∀ devState s, Returns (Site.answer out)
      (restoreDevices Session.destIo config devState).run
      (RestoreDone config devState s) s) :=
  ⟨fun _ => checkTopology_iff, fun _ _ => returns_restoreDevices⟩

end Rshyve.Migrate
