import KernelModules.Rtl8150.Probe

/-!
# Reading the MAC Address in a Probe

The first phase of the RTL8150 driver reads the hardware address of a device
with a control transfer. `usb_control_msg` returns how many bytes it has
transferred, or a negative error code, and `get_rtl_8150_register` passes that
on. `rtl8150_probe` takes it for a status: it binds the interface if no byte
was transferred at all, and fails for every other count.

How many bytes are requested is `sizeof(netdev->dev_addr)`, which is the size
of a pointer or of an array, as the kernel declares it. So it is a parameter
here. Six of the bytes are the address.

The device that a probe allocates and the interface data are as in
`Rtl8150.Probe`.

## Main definitions

* `Outcome`: What a transfer of some size may return.
* `usbControlMsg`, `getRtl8150Register`: The transfer, with the bytes it
  delivers.
* `probeAddress`: A probe, with what it delivers into `dev_addr`.
* `BindsReadable`: A probe binds the devices whose address it could read.
* `TransferFits`: The condition on the transfer.

## Theorems

* `delivered_iff`: When a transfer delivers the address.
* `probe_zero_iff`: When a probe returns 0.
* `probe_ownership`: What a probe leaves behind.
* `probe_binds_iff`: When a probe binds as it should.
* `probe_binds_unread`: A device that is bound with no address, and one with an
  address that is not bound.
-/

namespace KernelModules

namespace Rtl8150

namespace Probe

open Kernel Lib

variable {ι : Type*}

/-- Where the MAC address is in the memory of the device. -/
def IDR : Nat := 0x0120

/-- The octets of a hardware address. -/
def ETH_ALEN : Nat := 6

/-- What `usb_control_msg` may return for a request of `size` bytes: an error
    code, or a count up to the size. -/
structure Outcome (size : Nat) where
  ret : Int
  le_size : ret ≤ size

/-- `usb_control_msg` reading from the device: what it returns, and the bytes it
    delivers. -/
def usbControlMsg (memory : Nat → UInt8) (index : Nat) {size : Nat} (t : Outcome size) :
    Int × List UInt8 :=
  (t.ret, (List.range t.ret.toNat).map fun k => memory (index + k))

/-- `get_rtl_8150_register`. -/
def getRtl8150Register (memory : Nat → UInt8) (index : Nat) {size : Nat} (t : Outcome size) :
    Int × List UInt8 :=
  usbControlMsg memory index t

/-- `rtl8150_probe`, with the memory of the device and the outcome of its
    transfer: what it returns, what was delivered into `dev_addr`, and the
    state. -/
def probeAddress [DecidableEq ι] (memory : Nat → UInt8) (intf : ι) (alloc : Bool) {size : Nat}
    (t : Outcome size) (s : Sys ι) : Int × List UInt8 × Sys ι :=
  let r := getRtl8150Register memory IDR t
  let p := rtl8150Probe intf alloc r.1 s
  (p.1, if alloc then r.2 else [], p.2)

/-- A probe returns 0 exactly if the whole address was delivered and no more
    was asked for. Then the interface has the private structure of the new
    device, and else a device that was allocated has been freed and the
    interface has nothing. -/
structure BindsReadable [DecidableEq ι] (memory : Nat → UInt8) (intf : ι) (alloc : Bool)
    {size : Nat} (t : Outcome size) (s : Sys ι) : Prop where
  status : (probeAddress memory intf alloc t s).1 = 0 ↔
    (∀ k < ETH_ALEN, (probeAddress memory intf alloc t s).2.1[k]? = some (memory (IDR + k))) ∧
      size ≤ ETH_ALEN
  bound : (probeAddress memory intf alloc t s).1 = 0 →
    (probeAddress memory intf alloc t s).2.2.intfdata intf = some (.priv s.netdevs.made)
  failed : (probeAddress memory intf alloc t s).1 ≠ 0 →
    (probeAddress memory intf alloc t s).2.2.intfdata intf = none ∧
      ∀ n, s.netdevs.made ≤ n → n < (probeAddress memory intf alloc t s).2.2.netdevs.made →
        (probeAddress memory intf alloc t s).2.2.netdevs.released n = 1

/-- There was no transfer, or its count is neither 0 nor the whole of six bytes
    requested. -/
def TransferFits (alloc : Bool) {size : Nat} (t : Outcome size) : Prop :=
  alloc = false ∨ t.ret ≠ 0 ∧ ¬ (t.ret = ETH_ALEN ∧ size = ETH_ALEN)

instance (alloc : Bool) {size : Nat} (t : Outcome size) : Decidable (TransferFits alloc t) :=
  inferInstanceAs (Decidable (_ ∨ _ ∧ ¬ (_ ∧ _)))

section Probes

variable [DecidableEq ι] (memory : Nat → UInt8) {intf : ι} {alloc : Bool} {size : Nat}
  (t : Outcome size) {s : Sys ι} {h : History (Sys ι) (Step ι)}

/-- The address is delivered by a transfer of six bytes or more. -/
theorem delivered_iff : (∀ k < ETH_ALEN,
    (probeAddress memory intf alloc t s).2.1[k]? = some (memory (IDR + k))) ↔
      alloc = true ∧ (ETH_ALEN : Int) ≤ t.ret := by
  cases alloc with
  | false =>
      refine iff_of_false (fun hall => ?_) (fun h => Bool.false_ne_true h.1)
      have hfirst := hall 0 (by decide)
      simp only [probeAddress, Bool.false_eq_true, if_false, List.getElem?_nil, reduceCtorEq]
        at hfirst
  | true =>
      -- The bytes delivered are the first ones, as many as the count says.
      have hget : ∀ k, (probeAddress memory intf true t s).2.1[k]? =
          if k < t.ret.toNat then some (memory (IDR + k)) else none := by
        intro k
        simp only [probeAddress, getRtl8150Register, usbControlMsg, if_true, List.getElem?_map]
        by_cases hk : k < t.ret.toNat
        · rw [if_pos hk, List.getElem?_range hk, Option.map_some]
        · rw [if_neg hk, List.getElem?_eq_none (by
            rw [List.length_range]
            exact Nat.not_lt.mp hk), Option.map_none]
      simp only [hget, true_and]
      rw [ETH_ALEN]
      constructor
      · intro hall
        have hlast := hall 5 (by decide)
        by_contra hshort
        rw [if_neg (by omega)] at hlast
        exact nomatch hlast
      · intro hlong k hk
        rw [if_pos (by omega)]

/-- A probe returns 0 exactly if its transfer returned 0. -/
theorem probe_zero_iff :
    (probeAddress memory intf alloc t s).1 = 0 ↔ alloc = true ∧ t.ret = 0 := by
  have herr : (-ENOMEM : Int) ≠ 0 ∧ (-eio : Int) ≠ 0 := by decide
  cases alloc with
  | false => exact iff_of_false herr.1 (fun h => Bool.false_ne_true h.1)
  | true =>
      show (rtl8150Probe intf true t.ret s).1 = 0 ↔ _
      simp only [rtl8150Probe, Bool.true_eq_false, if_false, true_and]
      by_cases hret : t.ret = 0
      · rw [if_neg (not_not.mpr hret)]
        exact iff_of_true rfl hret
      · rw [if_pos hret]
        exact iff_of_false herr.2 hret

/-- No device has been freed that was not allocated yet. -/
def Fresh (s : Sys ι) : Prop := ∀ n, s.netdevs.made ≤ n → s.netdevs.released n = 0

theorem probe_fresh (hs : Fresh s) (ret : Int) : Fresh (rtl8150Probe intf alloc ret s).2 := by
  unfold rtl8150Probe
  split
  · exact hs
  · dsimp only
    split
    · intro n hle
      -- The device freed is the one that was allocated just now.
      have hlt : s.netdevs.made < n := hle
      rw [Pool.release_of_ne _ (Nat.ne_of_gt hlt)]
      exact hs n (Nat.le_of_lt hlt)
    · intro n hle
      exact hs n (Nat.le_of_succ_le hle)

theorem step_fresh {s' : Sys ι} {l : Step ι} (hs : Fresh s) (hstep : step l s = some s') :
    Fresh s' := by
  cases l with
  | init res =>
      rcases step_init.mp hstep with ⟨-, rfl⟩
      exact hs
  | probe intf alloc ret =>
      rcases step_probe.mp hstep with ⟨-, rfl⟩
      exact probe_fresh hs ret
  | disconnect intf =>
      rcases step_disconnect.mp hstep with ⟨-, rfl⟩
      simp only [rtl8150Disconnect]
      split <;> exact hs
  | exit =>
      rcases step_exit.mp hstep with ⟨-, rfl⟩
      exact hs
  | unloaded =>
      rcases step_unloaded.mp hstep with ⟨-, rfl⟩
      exact hs

/-- What a probe of an interface without data leaves: its private structure, or
    nothing. -/
theorem probe_ownership (hfree : s.intfdata intf = none)
    (hfresh : Fresh s) :
    ((probeAddress memory intf alloc t s).1 = 0 →
      (probeAddress memory intf alloc t s).2.2.intfdata intf = some (.priv s.netdevs.made)) ∧
    ((probeAddress memory intf alloc t s).1 ≠ 0 →
      (probeAddress memory intf alloc t s).2.2.intfdata intf = none ∧
        ∀ n, s.netdevs.made ≤ n → n < (probeAddress memory intf alloc t s).2.2.netdevs.made →
          (probeAddress memory intf alloc t s).2.2.netdevs.released n = 1) := by
  rcases probe_cases intf alloc t.ret hfree with ⟨hfails, hdata, hdevs⟩ | ⟨hbinds, -, hdata⟩
  · refine ⟨fun hzero => absurd hzero hfails, fun _ => ⟨?_, ?_⟩⟩
    · show (rtl8150Probe intf alloc t.ret s).2.intfdata intf = none
      rw [hdata, hfree]
    · show ∀ n, _ → n < (rtl8150Probe intf alloc t.ret s).2.netdevs.made →
        (rtl8150Probe intf alloc t.ret s).2.netdevs.released n = 1
      intro n hle hlt
      rcases hdevs with hdevs | hdevs
      · -- Nothing was allocated.
        rw [hdevs] at hlt
        exact absurd hlt (Nat.not_lt.mpr hle)
      · rw [hdevs] at hlt ⊢
        have hn : n = s.netdevs.made := Nat.le_antisymm (Nat.le_of_lt_succ hlt) hle
        rw [hn, Pool.release_self, Pool.make_released, hfresh _ (Nat.le_refl _)]
  · refine ⟨fun _ => ?_, fun hne => absurd hbinds hne⟩
    show (rtl8150Probe intf alloc t.ret s).2.intfdata intf = _
    rw [hdata, Function.update_self]

/-- The status of a probe fits what was delivered exactly under the
    condition. -/
theorem status_iff : ((probeAddress memory intf alloc t s).1 = 0 ↔
    (∀ k < ETH_ALEN, (probeAddress memory intf alloc t s).2.1[k]? = some (memory (IDR + k))) ∧
      size ≤ ETH_ALEN) ↔ TransferFits alloc t := by
  have hsize := t.le_size
  rw [delivered_iff, probe_zero_iff, TransferFits]
  cases alloc with
  | false => simp only [Bool.false_eq_true, false_and, true_or]
  | true =>
      rw [ETH_ALEN]
      simp only [true_and, Bool.true_eq_false, false_or]
      constructor
      · intro hiff
        refine ⟨fun hzero => ?_, fun hsix => ?_⟩
        · have hdelivered := (hiff.mp hzero).1
          omega
        · have hzero := hiff.mpr ⟨by omega, by omega⟩
          omega
      · rintro ⟨hne, hnot⟩
        exact iff_of_false hne fun hand => hnot ⟨by omega, by omega⟩

/-- In every reachable state a probe of an interface that is not bound binds it
    if and only if it could read its address, exactly if the transfer does not
    return 0 and is not one of six bytes that is complete. -/
theorem probe_binds_iff (hr : Run step Sys.init h s) (hunbound : intf ∉ s.bound) :
    BindsReadable memory intf alloc t s ↔ TransferFits alloc t := by
  -- The interface has nothing and no later device was freed, in any run.
  have hfiled := hr.invariant Filed init_filed fun _ _ _ => step_filed
  have hfresh := hr.invariant Fresh (fun _ _ => rfl) fun _ _ _ => step_fresh
  rcases probe_ownership memory t (hfiled.free intf hunbound) hfresh with ⟨hbound, hfailed⟩
  have hstatus : ((probeAddress memory intf alloc t s).1 = 0 ↔ _) ↔ TransferFits alloc t :=
    status_iff memory t
  rw [← hstatus]
  exact ⟨fun hbinds => hbinds.status, fun hstatus => ⟨hstatus, hbound, hfailed⟩⟩

end Probes

/-- A loaded driver, and an address of six octets. -/
def loadedSys : Sys Nat := (usbRtl8150Init 0 { (Sys.init : Sys Nat) with loaded := true }).2

theorem run_loadedSys : ∃ h, Run step (Sys.init : Sys Nat) h loadedSys :=
  ⟨_, .next (.init 0) .start rfl⟩

def exampleMemory (a : Nat) : UInt8 := (a - IDR).toUInt8

/-- Transfers for six bytes that stall, and that deliver nothing and everything. -/
def stalled : Outcome 6 := ⟨-32, by decide⟩
def noBytes : Outcome 6 := ⟨0, by decide⟩
def sixBytes : Outcome 6 := ⟨6, by decide⟩

/-- When the transfer stalls the probe fails, and so it should. -/
theorem probe_binds_stalled : BindsReadable exampleMemory 7 true stalled loadedSys := by
  rcases run_loadedSys with ⟨h, hr⟩
  exact (probe_binds_iff _ _ hr (by decide)).mpr (by decide)

/-- After a transfer of no bytes the interface is bound, and after one of the
    six bytes of the address it is not. -/
theorem probe_binds_unread :
    ((probeAddress exampleMemory 7 true noBytes loadedSys).1 = 0 ∧
      (probeAddress exampleMemory 7 true noBytes loadedSys).2.1 = [] ∧
      ¬ BindsReadable exampleMemory 7 true noBytes loadedSys) ∧
    (probeAddress exampleMemory 7 true sixBytes loadedSys).1 = -eio ∧
      (probeAddress exampleMemory 7 true sixBytes loadedSys).2.1 = [0, 1, 2, 3, 4, 5] ∧
      ¬ BindsReadable exampleMemory 7 true sixBytes loadedSys := by
  refine ⟨⟨by decide, by decide, fun hbinds => ?_⟩, by decide, by decide, fun hbinds => ?_⟩
  · exact absurd (hbinds.status.mp (by decide)) (by decide)
  · exact absurd (hbinds.status.mpr (by decide)) (by decide)

end Probe

end Rtl8150

end KernelModules
