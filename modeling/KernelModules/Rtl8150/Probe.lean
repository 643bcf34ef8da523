import KernelModules.Kernel.User
import KernelModules.Lib.Pool
import KernelModules.Lib.Run
import KernelModules.Lib.Table

/-!
# Probing and Disconnecting RTL8150 Interfaces

The first phase of the driver: init and exit of the module, and `probe` and
`disconnect` of any number of interfaces. `probe` allocates a `net_device`,
whose private structure lies inside it. It frees the device again where it
fails, and else leaves the private structure with the interface, for
`disconnect` to find.

`disconnect` gives to `kfree` what it finds, which is no pointer that an
allocator returned, and never frees the device. `usb_rtl8150_init` returns 0
also where `usb_register` failed, so the module stays and its exit
deregisters a driver that is not registered. Apart from these two the books
are in order (`run_paired_iff`).

## Main definitions

* `Ptr`, `Sys`, `Step`, `step`: The driver and the USB core.
* `rtl8150Probe`, `rtl8150Disconnect`: The callbacks.
* `usbRtl8150Init`, `usbRtl8150Exit`: Init and exit.
* `Paired`: Every release has its allocation, and every deregistration its
  registration.
* `Orderly`: The condition on a step.

## Theorems

* `probe_paired`: A probe keeps the books, failing or not.
* `run_paired_iff`: When they are in order.
* `run_unpaired`: A disconnect that frees the wrong pointer.
-/

namespace KernelModules

namespace Rtl8150

namespace Probe

open Kernel Lib

variable {ι : Type*}

/-- A `net_device` by its number, and the private structure inside it. -/
inductive Ptr where
  | netdev (n : Nat)
  | priv (n : Nat)
  deriving DecidableEq

/-- The pointer was returned by an allocator. -/
def Ptr.Allocated : Ptr → Prop
  | .netdev _ => True
  | .priv _ => False

/-- The module is in memory from its init to its exit, and `registered` is for
    the USB core to say. An interface is bound from a probe that returned 0 to
    its disconnect. `kfreed` is what was given to `kfree`, and
    `deregisteredIdle` says that `usb_deregister` was called for a driver that
    was not registered. -/
structure Sys (ι : Type*) where
  loaded : Bool
  exiting : Bool
  registered : Bool
  netdevs : Pool
  intfdata : ι → Option Ptr
  bound : List ι
  kfreed : List Ptr
  deregisteredIdle : Bool

def Sys.init : Sys ι :=
  { loaded := false, exiting := false, registered := false, netdevs := .empty,
    intfdata := fun _ => none, bound := [], kfreed := [], deregisteredIdle := false }

/-- Events, with what `usb_register` returns, whether `alloc_etherdev` gives a
    device, and what the read of the registers returns. -/
inductive Step (ι : Type*) where
  | init (res : Int)
  | probe (intf : ι) (alloc : Bool) (ret : Int)
  | disconnect (intf : ι)
  | exit
  | unloaded

/-- `rtl8150_probe`: what it returns, and the state. -/
def rtl8150Probe [DecidableEq ι] (intf : ι) (alloc : Bool) (ret : Int) (s : Sys ι) : Int × Sys ι :=
  if alloc = false then (-ENOMEM, s)
  else
    let netdev := s.netdevs.made
    let s' := { s with netdevs := s.netdevs.make }
    if ret ≠ 0 then
      (-eio, { s' with
        intfdata := Function.update s'.intfdata intf none
        netdevs := s'.netdevs.release netdev })
    else (0, { s' with intfdata := Function.update s'.intfdata intf (some (.priv netdev)) })

/-- `rtl8150_disconnect`. -/
def rtl8150Disconnect [DecidableEq ι] (intf : ι) (s : Sys ι) : Sys ι :=
  match s.intfdata intf with
  | none => s
  | some priv =>
    { s with
      intfdata := Function.update s.intfdata intf none
      kfreed := priv :: s.kfreed }

/-- `usb_rtl8150_init`, which returns 0 whatever `usb_register` returned. -/
def usbRtl8150Init (res : Int) (s : Sys ι) : Int × Sys ι :=
  (0, { s with registered := decide (res = 0) })

/-- `usb_rtl8150_exit`, up to the disconnects that `usb_deregister` makes. -/
def usbRtl8150Exit (s : Sys ι) : Sys ι :=
  { s with registered := false, deregisteredIdle := s.deregisteredIdle || !s.registered }

/-- The USB core probes an interface that is not bound while the driver is
    registered, and disconnects one that is bound. The exit of the module does
    not end before every interface is disconnected. -/
def step [DecidableEq ι] : Step ι → Sys ι → Option (Sys ι)
  | .init res, s =>
    if s.loaded then none
    else
      let r := usbRtl8150Init res s
      some { r.2 with loaded := decide (r.1 = 0) }
  | .probe intf alloc ret, s =>
    if s.registered = true ∧ intf ∉ s.bound then
      let r := rtl8150Probe intf alloc ret s
      some { r.2 with bound := if r.1 = 0 then intf :: r.2.bound else r.2.bound }
    else none
  | .disconnect intf, s =>
    if intf ∈ s.bound then
      let s' := rtl8150Disconnect intf s
      some { s' with bound := s'.bound.filter fun i => i ≠ intf }
    else none
  | .exit, s =>
    if s.loaded = true ∧ s.exiting = false then some { usbRtl8150Exit s with exiting := true }
    else none
  | .unloaded, s =>
    if s.exiting = true ∧ s.bound = [] then some { s with loaded := false, exiting := false }
    else none

/-- The devices that were not freed are those of the interfaces that have one,
    all others were freed once, `kfree` was given allocated pointers only, and
    no driver was deregistered that was not registered. -/
structure Paired (s : Sys ι) : Prop where
  netdevs : s.netdevs.Owns fun n => ∃ intf, s.intfdata intf = some (.priv n)
  kfreed : ∀ p ∈ s.kfreed, p.Allocated
  registered : s.deregisteredIdle = false

/-- No interface is disconnected, and the exit finds the driver registered. -/
def Orderly (s : Sys ι) : Step ι → Prop
  | .disconnect _ => False
  | .exit => s.registered = true
  | _ => True

instance (s : Sys ι) : (l : Step ι) → Decidable (Orderly s l)
  | .disconnect _ => .isFalse id
  | .exit => inferInstanceAs (Decidable (_ = _))
  | .init _ | .probe _ _ _ | .unloaded => .isTrue trivial

/-- The interfaces that are bound have the private structure of a device, and
    the others have nothing. -/
structure Filed (s : Sys ι) : Prop where
  bound : ∀ intf ∈ s.bound, ∃ n, s.intfdata intf = some (.priv n)
  free : ∀ intf, intf ∉ s.bound → s.intfdata intf = none

theorem init_filed : Filed (Sys.init : Sys ι) where
  bound := fun _ hi => absurd hi List.not_mem_nil
  free := fun _ _ => rfl

theorem init_paired : Paired (Sys.init : Sys ι) where
  netdevs := Pool.empty_owns.congr fun _ => iff_of_false
    (fun ⟨_, hn⟩ => by simp only [Sys.init, reduceCtorEq] at hn) id
  kfreed := fun _ hp => absurd hp List.not_mem_nil
  registered := rfl

section Steps

variable [DecidableEq ι] {s s' : Sys ι} {l : Step ι} {h : History (Sys ι) (Step ι)}

theorem step_init {res : Int} : step (.init res) s = some s' ↔ s.loaded = false ∧
    { (usbRtl8150Init res s).2 with loaded := decide ((usbRtl8150Init res s).1 = 0) } = s' := by
  simp only [step, Option.ite_none_left_eq_some, Option.some.injEq, Bool.not_eq_true]

theorem step_probe {intf : ι} {alloc : Bool} {ret : Int} :
    step (.probe intf alloc ret) s = some s' ↔ (s.registered = true ∧ intf ∉ s.bound) ∧
      { (rtl8150Probe intf alloc ret s).2 with
        bound :=
          if (rtl8150Probe intf alloc ret s).1 = 0
          then intf :: (rtl8150Probe intf alloc ret s).2.bound
          else (rtl8150Probe intf alloc ret s).2.bound } = s' := by
  simp only [step, Option.ite_none_right_eq_some, Option.some.injEq]

theorem step_disconnect {intf : ι} : step (.disconnect intf) s = some s' ↔ intf ∈ s.bound ∧
    { rtl8150Disconnect intf s with
      bound := (rtl8150Disconnect intf s).bound.filter fun i => i ≠ intf } = s' := by
  simp only [step, Option.ite_none_right_eq_some, Option.some.injEq]

theorem step_exit : step .exit s = some s' ↔ (s.loaded = true ∧ s.exiting = false) ∧
    { usbRtl8150Exit s with exiting := true } = s' := by
  simp only [step, Option.ite_none_right_eq_some, Option.some.injEq]

theorem step_unloaded : step .unloaded s = some s' ↔ (s.exiting = true ∧ s.bound = []) ∧
    { s with loaded := false, exiting := false } = s' := by
  simp only [step, Option.ite_none_right_eq_some, Option.some.injEq]

/-- The three outcomes of a probe. -/
theorem probe_cases (intf : ι) (alloc : Bool) (ret : Int) (hfree : s.intfdata intf = none) :
    (rtl8150Probe intf alloc ret s).1 ≠ 0 ∧
        (rtl8150Probe intf alloc ret s).2.intfdata = s.intfdata ∧
        ((rtl8150Probe intf alloc ret s).2.netdevs = s.netdevs ∨
          (rtl8150Probe intf alloc ret s).2.netdevs = s.netdevs.make.release s.netdevs.made) ∨
      (rtl8150Probe intf alloc ret s).1 = 0 ∧
        (rtl8150Probe intf alloc ret s).2.netdevs = s.netdevs.make ∧
        (rtl8150Probe intf alloc ret s).2.intfdata =
          Function.update s.intfdata intf (some (.priv s.netdevs.made)) := by
  have herr : (-ENOMEM : Int) ≠ 0 ∧ (-eio : Int) ≠ 0 := by decide
  unfold rtl8150Probe
  by_cases halloc : alloc = false
  · rw [if_pos halloc]
    exact .inl ⟨herr.1, rfl, .inl rfl⟩
  · rw [if_neg halloc]
    by_cases hret : ret ≠ 0
    · dsimp only
      rw [if_pos hret]
      exact .inl ⟨herr.2, Table.update_none_self hfree, .inr rfl⟩
    · dsimp only
      rw [if_neg hret]
      exact .inr ⟨rfl, rfl, rfl⟩

/-- A probe gives nothing to `kfree` and does not touch the registration. -/
theorem probe_frame (intf : ι) (alloc : Bool) (ret : Int) (s : Sys ι) :
    (rtl8150Probe intf alloc ret s).2.kfreed = s.kfreed ∧
      (rtl8150Probe intf alloc ret s).2.deregisteredIdle = s.deregisteredIdle ∧
      (rtl8150Probe intf alloc ret s).2.bound = s.bound := by
  unfold rtl8150Probe
  split
  · exact ⟨rfl, rfl, rfl⟩
  · dsimp only
    split <;> exact ⟨rfl, rfl, rfl⟩

theorem probe_filed {intf : ι} (alloc : Bool) (ret : Int) (hs : Filed s) (hfree : intf ∉ s.bound)
    (hstep : step (.probe intf alloc ret) s = some s') : Filed s' := by
  rcases step_probe.mp hstep with ⟨-, rfl⟩
  have hnone := hs.free intf hfree
  rcases probe_cases intf alloc ret hnone with ⟨hfails, hdata, _⟩ | ⟨hbinds, _, hdata⟩
  · refine ⟨fun i hi => ?_, fun i hi => ?_⟩
    · simp only [if_neg hfails, (probe_frame intf alloc ret s).2.2, hdata] at hi ⊢
      exact hs.bound i hi
    · simp only [if_neg hfails, (probe_frame intf alloc ret s).2.2, hdata] at hi ⊢
      exact hs.free i hi
  · refine ⟨fun i hi => ?_, fun i hi => ?_⟩
    · simp only [if_pos hbinds, (probe_frame intf alloc ret s).2.2, hdata, List.mem_cons] at hi ⊢
      by_cases hintf : i = intf
      · exact ⟨s.netdevs.made, by rw [hintf, Function.update_self]⟩
      · rw [Function.update_of_ne hintf]
        exact hs.bound i (hi.resolve_left hintf)
    · simp only [if_pos hbinds, (probe_frame intf alloc ret s).2.2, hdata, List.mem_cons,
        not_or] at hi ⊢
      rw [Function.update_of_ne hi.1]
      exact hs.free i hi.2

/-- A probe keeps the books: a device that it allocates is freed at once or
    left with the interface. -/
theorem probe_paired {intf : ι} (alloc : Bool) (ret : Int) (hfree : s.intfdata intf = none)
    (hs : Paired s) : Paired (rtl8150Probe intf alloc ret s).2 := by
  rcases probe_frame intf alloc ret s with ⟨hkfreed, hidle, _⟩
  refine ⟨?_, by rw [hkfreed]; exact hs.kfreed, by rw [hidle]; exact hs.registered⟩
  rcases probe_cases intf alloc ret hfree with ⟨_, hdata, hdevs⟩ | ⟨_, hdevs, hdata⟩
  · rw [hdata]
    rcases hdevs with hdevs | hdevs
    · rw [hdevs]
      exact hs.netdevs
    · rw [hdevs]
      refine (hs.netdevs.make.release (.inl rfl)).congr fun n => ?_
      constructor
      · intro hn
        exact ⟨.inr hn, Nat.ne_of_lt (hs.netdevs.made n hn)⟩
      · rintro ⟨hn | hn, hne⟩
        · exact absurd hn hne
        · exact hn
  · rw [hdata, hdevs]
    refine hs.netdevs.make.congr fun n => ?_
    rw [Table.exists_update_some_iff hfree, Ptr.priv.injEq]

/-- A disconnect of a bound interface gives its private structure to
    `kfree`. -/
theorem disconnect_kfreed {intf : ι} {n : Nat} (hdata : s.intfdata intf = some (.priv n)) :
    Ptr.priv n ∈ (rtl8150Disconnect intf s).kfreed := by
  rw [rtl8150Disconnect, hdata]
  exact List.mem_cons_self

theorem step_filed (hs : Filed s) (hstep : step l s = some s') : Filed s' := by
  cases l with
  | init res =>
      rcases step_init.mp hstep with ⟨_, rfl⟩
      exact ⟨hs.bound, hs.free⟩
  | probe intf alloc ret =>
      rcases step_probe.mp hstep with ⟨hguard, -⟩
      exact probe_filed alloc ret hs hguard.2 hstep
  | disconnect intf =>
      rcases step_disconnect.mp hstep with ⟨hbound, rfl⟩
      rcases hs.bound intf hbound with ⟨n, hn⟩
      refine ⟨fun i hi => ?_, fun i hi => ?_⟩
      · simp only [rtl8150Disconnect, hn, List.mem_filter, decide_eq_true_eq] at hi ⊢
        rw [Function.update_of_ne hi.2]
        exact hs.bound i hi.1
      · simp only [rtl8150Disconnect, hn, List.mem_filter, decide_eq_true_eq, not_and,
          not_not] at hi ⊢
        by_cases hintf : i = intf
        · rw [hintf, Function.update_self]
        · rw [Function.update_of_ne hintf]
          exact hs.free i fun hmem => hintf (hi hmem)
  | exit =>
      rcases step_exit.mp hstep with ⟨_, rfl⟩
      exact ⟨hs.bound, hs.free⟩
  | unloaded =>
      rcases step_unloaded.mp hstep with ⟨_, rfl⟩
      exact ⟨hs.bound, hs.free⟩

theorem step_paired_iff (hfiled : Filed s) (hs : Paired s) (hstep : step l s = some s') :
    Paired s' ↔ Orderly s l := by
  cases l with
  | init res =>
      rcases step_init.mp hstep with ⟨_, rfl⟩
      exact iff_of_true ⟨hs.netdevs, hs.kfreed, hs.registered⟩ trivial
  | probe intf alloc ret =>
      rcases step_probe.mp hstep with ⟨⟨_, hfree⟩, rfl⟩
      rcases probe_paired alloc ret (hfiled.free intf hfree) hs with ⟨hdevs, hkfreed, hidle⟩
      exact iff_of_true ⟨hdevs, hkfreed, hidle⟩ trivial
  | disconnect intf =>
      rcases step_disconnect.mp hstep with ⟨hbound, rfl⟩
      rcases hfiled.bound intf hbound with ⟨n, hn⟩
      exact iff_of_false (fun hpaired => hpaired.kfreed _ (disconnect_kfreed hn)) id
  | exit =>
      rcases step_exit.mp hstep with ⟨_, rfl⟩
      rw [Orderly]
      constructor
      · intro hpaired
        have hidle := hpaired.registered
        simp only [usbRtl8150Exit, hs.registered, Bool.false_or, Bool.not_eq_false'] at hidle
        exact hidle
      · intro hregistered
        refine ⟨hs.netdevs, hs.kfreed, ?_⟩
        simp only [usbRtl8150Exit, hs.registered, hregistered, Bool.not_true, Bool.or_false]
  | unloaded =>
      rcases step_unloaded.mp hstep with ⟨_, rfl⟩
      exact iff_of_true ⟨hs.netdevs, hs.kfreed, hs.registered⟩ trivial

end Steps

section Runs

variable [DecidableEq ι] {s : Sys ι} {h : History (Sys ι) (Step ι)}

/-- The books are in order in the runs in which no interface is disconnected
    and no exit comes after an init whose registration failed, and in no
    others. -/
theorem run_paired_iff (hr : Run step Sys.init h s) :
    EveryState Paired h s ↔ EveryStep (fun _ => Orderly) h := by
  refine hr.everyState_iff_everyStep init_paired ?_
  intro h s l s' hr hs hstep
  exact step_paired_iff (hr.invariant Filed init_filed fun _ _ _ => step_filed) hs hstep

end Runs

/-- A probe without memory, one that cannot read the registers and one that
    binds its interface. -/
theorem run_paired_bound : ∃ (h : History (Sys Nat) (Step Nat)) (s : Sys Nat),
    Run step Sys.init h s ∧ s.bound = [7] ∧ s.netdevs.made = 2 ∧ EveryState Paired h s := by
  rcases exists_run_of_exec step (Sys.init : Sys Nat)
    [.init 0, .probe 3 false 0, .probe 3 true (-32), .probe 7 true 0]
    (fun h s => EveryStep (fun _ => Orderly) h ∧ s.bound = [7] ∧ s.netdevs.made = 2)
    (by decide) with ⟨h, s, hr, hp⟩
  rcases of_decide_eq_true hp with ⟨horderly, hbound, hmade⟩
  exact ⟨h, s, hr, hbound, hmade, (run_paired_iff hr).mpr horderly⟩

/-- An interface is probed, bound and disconnected, and the module unloaded. A
    pointer into the device was given to `kfree`, and the device itself is
    lost. A load whose registration failed deregisters all the same. -/
theorem run_unpaired :
    (∃ (h : History (Sys Nat) (Step Nat)) (s : Sys Nat), Run step Sys.init h s ∧
      s.loaded = false ∧ s.kfreed = [.priv 0] ∧ s.netdevs.released 0 = 0 ∧ ¬ Paired s) ∧
    ∃ (h : History (Sys Nat) (Step Nat)) (s : Sys Nat), Run step Sys.init h s ∧
      s.loaded = false ∧ s.deregisteredIdle = true ∧ ¬ Paired s := by
  constructor
  · rcases exists_run_of_exec step (Sys.init : Sys Nat)
      [.init 0, .probe 0 true 0, .disconnect 0, .exit, .unloaded]
      (fun _ s => s.loaded = false ∧ s.kfreed = [.priv 0] ∧ s.netdevs.released 0 = 0)
      (by decide) with ⟨h, s, hr, hp⟩
    rcases of_decide_eq_true hp with ⟨hloaded, hkfreed, hlost⟩
    refine ⟨h, s, hr, hloaded, hkfreed, hlost, fun hpaired => ?_⟩
    exact hpaired.kfreed (.priv 0) (by rw [hkfreed]; exact List.mem_singleton_self _)
  · rcases exists_run_of_exec step (Sys.init : Sys Nat) [.init (-16), .exit, .unloaded]
      (fun _ s => s.loaded = false ∧ s.deregisteredIdle = true) (by decide) with ⟨h, s, hr, hp⟩
    rcases of_decide_eq_true hp with ⟨hloaded, hidle⟩
    refine ⟨h, s, hr, hloaded, hidle, fun hpaired => ?_⟩
    rw [hpaired.registered] at hidle
    exact Bool.noConfusion hidle

end Probe

end Rtl8150

end KernelModules
