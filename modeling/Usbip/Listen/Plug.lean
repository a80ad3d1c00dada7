import Usbip.Listen.Devlist
import Usbip.Listen.Server

/-! Plugging and unplugging by applications, which may plug a device that is plugged already.  A
device knows one listener at a time and an unplug takes one entry off the list of that listener. -/

namespace Usbip.Listen

open Lib

/-- `usb_transport`, as far as serving reads it. -/
structure Transport where
  host : String
  port : Int
  deriving DecidableEq, Repr

/-- The address that `usbip_device_plug` takes from a transport, which may be null. -/
def plugAddr : Option Transport → Addr
  | none => ⟨"0.0.0.0", 3240⟩
  | some transport => ⟨if transport.host = "" then "0.0.0.0" else transport.host, transport.port⟩

/-- The calls of applications. `built` is what the device has been built to when it is plugged. -/
inductive PlugAct
  | plug (dev : DevId) (built : Device) (transport : Option Transport) (os : Os)
  | unplug (dev : DevId)

/-- The device that a call plugs. -/
def PlugAct.plugs : PlugAct → Option DevId
  | .plug dev .. => some dev
  | .unplug _ => none

namespace Net

variable {net : Net} {dev d : DevId} {addr : Addr} {act : PlugAct}

/-- `usbip_device_plug` and `usbip_device_unplug`. -/
def call (net : Net) : PlugAct → Net
  | .plug dev built transport os =>
    if built.checkEndpointConflicts ≠ usbSuccess then net
    else (net.serveStart dev (plugAddr transport) os).1
  | .unplug dev => net.serveStop dev

def calls (net : Net) (act : PlugAct) : Option Net := some (net.call act)

/-- Devices that have been created and given names, and no listener. -/
def created (busid : DevId → String) : Net := ⟨fun dev => ⟨busid dev, 0, 0, none⟩, fun _ => none⟩

/-- Nothing that a client gets from a listener depends on the device. -/
def Unreached (net : Net) (dev : DevId) : Prop :=
  ∀ addr (listed listed' : DevId → Listed) input, (∀ d, d ≠ dev → listed d = listed' d) →
    handshake ((net.devs addr).map listed) input = handshake ((net.devs addr).map listed') input

/-- An unplug takes the device off all lists and leaves the others in their order, and until the
device is plugged again no client reaches it. -/
structure Clean (net : Net) (dev : DevId) : Prop where
  gone : ∀ addr, dev ∉ (net.serveStop dev).devs addr
  others : ∀ addr, ((net.serveStop dev).devs addr).filter (· ≠ dev) =
    (net.devs addr).filter (· ≠ dev)
  later : ∀ acts net', (∀ act ∈ acts, act.plugs ≠ some dev) →
    exec calls (net.serveStop dev) acts = some net' →
      net'.Unreached dev ∧ ∀ addr busid, net'.importDev addr busid ≠ some dev

/-- A device that is plugged is not plugged again, unless the call fails. -/
def Once (net : Net) : PlugAct → Prop
  | .plug dev built transport os =>
    (net.device dev).server = none ∨ built.checkEndpointConflicts ≠ usbSuccess ∨
      net.joined (plugAddr transport) os = none
  | .unplug _ => True

/-- The listeners have the devices that say so, and no others. -/
structure Tied (net : Net) : Prop where
  linked : net.Linked
  held : ∀ {dev addr}, (net.device dev).server = some addr → dev ∈ net.devs addr

theorem Tied.congr {net' : Net} (h : net.Tied) (hdev : net'.device = net.device)
    (hdevs : net'.devs = net.devs) : net'.Tied where
  linked := h.linked.congr hdev hdevs
  held := by rw [hdev, hdevs]; exact h.held

theorem Tied.created (busid : DevId → String) : (created busid).Tied where
  linked := ⟨fun h => absurd h List.not_mem_nil, fun _ => List.nodup_nil,
    fun h => absurd h List.not_mem_nil⟩
  held h := by cases h

theorem Tied.stop (h : net.Tied) (dev : DevId) : (net.serveStop dev).Tied where
  linked := h.linked.stop dev
  held {d addr} hd := by
    cases hs : (net.device dev).server with
    | none =>
      rw [serveStop_none hs] at hd ⊢
      exact h.held hd
    | some home =>
      rw [device_serveStop hs] at hd
      split at hd
      · cases hd
      · rename_i hne
        have hold := h.held hd
        rw [devs_serveStop hs]
        split
        · rename_i ha
          rw [List.mem_erase_of_ne hne, ← ha]
          exact hold
        · exact hold

theorem Tied.join {server : Server} (h : net.Tied) (hout : (net.device dev).server = none)
    (hdevs : server.devs = net.devs addr) : (net.join dev addr server).Tied where
  linked := h.linked.join hout hdevs
  held {d a} hd := by
    rw [devs_join hdevs]
    by_cases hne : d = dev
    · rw [hne, device_join_self] at hd
      rw [if_pos (Option.some.inj hd).symm, hne]
      exact List.mem_append_right _ (List.mem_singleton_self _)
    · rw [device_join_of_ne hne] at hd
      split
      · rename_i ha
        exact List.mem_append_left _ (ha ▸ h.held hd)
      · exact h.held hd

/-- What a call can do: leave all devices and lists, join the device to a listener, or stop it. -/
inductive CallStep (net : Net) : PlugAct → Net → Prop
  | refused {act : PlugAct} {net' : Net} (device : net'.device = net.device)
    (devs : net'.devs = net.devs) : CallStep net act net'
  | joined {dev : DevId} {built : Device} {transport : Option Transport} {os : Os} {server : Server}
    (some : net.joined (plugAddr transport) os = some server)
    (ok : built.checkEndpointConflicts = usbSuccess)
    (devs : server.devs = net.devs (plugAddr transport)) :
    CallStep net (.plug dev built transport os) (net.join dev (plugAddr transport) server)
  | stopped (dev : DevId) : CallStep net (.unplug dev) (net.serveStop dev)

theorem call_step (net : Net) (act : PlugAct) : CallStep net act (net.call act) := by
  cases act with
  | plug dev built transport os =>
    rw [call]
    split
    · exact .refused rfl rfl
    · rename_i hok
      have hstart := net.serveStart_step dev (plugAddr transport) os
      generalize (net.serveStart dev (plugAddr transport) os).1 = net' at hstart
      cases hstart with
      | refused _ hdev hdevs => exact .refused hdev hdevs
      | joined hsome hdevs => exact .joined hsome (Decidable.not_not.mp hok) hdevs
  | unplug dev => exact .stopped dev

/-! ### A device that is on no list -/

/-- A call puts no other device on a list than the one that it plugs. -/
theorem call_out (h : ∀ addr, dev ∉ net.devs addr) (hact : act.plugs ≠ some dev) (addr : Addr) :
    dev ∉ (net.call act).devs addr := by
  have hstep := net.call_step act
  generalize net.call act = net' at hstep
  cases hstep with
  | refused _ hdevs =>
    rw [hdevs]
    exact h addr
  | @joined own _ _ _ _ _ _ hdevs =>
    have hne : dev ≠ own := fun heq => hact (congrArg some heq.symm)
    rw [devs_join hdevs]
    split
    · intro hmem
      rcases List.mem_append.mp hmem with hmem | hmem
      · exact h _ hmem
      · exact hne (List.mem_singleton.mp hmem)
    · exact h addr
  | stopped own => exact fun hmem => h addr ((devs_serveStop_sublist net own addr).subset hmem)

theorem exec_out {acts : List PlugAct} {net' : Net} (h : ∀ addr, dev ∉ net.devs addr)
    (hacts : ∀ act ∈ acts, act.plugs ≠ some dev) (hrun : exec calls net acts = some net') :
    ∀ addr, dev ∉ net'.devs addr := by
  induction acts generalizing net with
  | nil =>
    cases hrun
    exact h
  | cons act acts ih =>
    obtain ⟨hact, hacts⟩ := List.forall_mem_cons.mp hacts
    exact ih (call_out h hact) hacts hrun

theorem unreached_of_out (h : ∀ addr, dev ∉ net.devs addr) : net.Unreached dev := by
  intro addr listed listed' input hsame
  have hlist : (net.devs addr).map listed = (net.devs addr).map listed' :=
    List.map_congr_left fun d hd => hsame d fun heq => h addr (heq ▸ hd)
  rw [hlist]

theorem importDev_of_out (h : dev ∉ net.devs addr) (busid : String) :
    net.importDev addr busid ≠ some dev := fun himport => h (List.mem_of_find?_eq_some himport)

/-! ### One unplug -/

theorem Tied.clean (h : net.Tied) (dev : DevId) : net.Clean dev := by
  have hgone : ∀ addr, dev ∉ (net.serveStop dev).devs addr := by
    intro addr hmem
    have hhome := (h.linked.stop dev).home hmem
    cases hs : (net.device dev).server with
    | none =>
      rw [serveStop_none hs, hs] at hhome
      cases hhome
    | some home =>
      rw [device_serveStop hs, if_pos rfl] at hhome
      cases hhome
  refine ⟨hgone, fun addr => ?_, fun acts net' hacts hrun => ?_⟩
  · cases hs : (net.device dev).server with
    | none => rw [serveStop_none hs]
    | some home =>
      rw [devs_serveStop hs]
      split
      · rename_i ha
        rw [(h.linked.nodup home).erase_eq_filter, List.filter_filter, ha]
        exact List.filter_congr fun d _ => by simp
      · rfl
  · have hout := exec_out hgone hacts hrun
    exact ⟨unreached_of_out hout, fun addr => importDev_of_out (hout addr)⟩

/-- A device that has joined twice is on a list after it is unplugged. -/
theorem not_clean_of_twice {server : Server} {home : Addr} (h : net.Tied)
    (hs : (net.device dev).server = some home) (hdevs : server.devs = net.devs addr) :
    ¬(net.join dev addr server).Clean dev := by
  intro hclean
  refine hclean.gone home ?_
  have hserver : ((net.join dev addr server).device dev).server = some addr :=
    congrArg Identity.server device_join_self
  rw [devs_serveStop hserver, devs_join hdevs, devs_join hdevs, if_pos rfl]
  split
  · -- the unplug takes the first of the two entries
    rename_i hhome
    rw [List.erase_append_left _ (hhome ▸ h.held hs)]
    exact List.mem_append_right _ (List.mem_singleton_self dev)
  · exact h.held hs

/-! ### Runs -/

theorem Tied.call (h : net.Tied) (honce : net.Once act) : (net.call act).Tied := by
  have hstep := net.call_step act
  generalize net.call act = net' at hstep
  cases hstep with
  | refused hdevice hdevs => exact h.congr hdevice hdevs
  | joined hsome hok hdevs =>
    rcases honce with hout | hconflict | hnone
    · exact h.join hout hdevs
    · exact absurd hok hconflict
    · cases hsome.symm.trans hnone
  | stopped dev => exact h.stop dev

/-- After a call every device can be unplugged for good exactly when the call did not plug a device
a second time. -/
theorem clean_iff_once (h : net.Tied) : (∀ dev, (net.call act).Clean dev) ↔ net.Once act := by
  constructor
  · intro hclean
    cases act with
    | unplug _ => trivial
    | plug dev built transport os =>
      rw [Once]
      by_contra hnot
      push Not at hnot
      obtain ⟨hserver, hok, hjoined⟩ := hnot
      obtain ⟨home, hs⟩ := Option.ne_none_iff_exists'.mp hserver
      replace hclean := hclean dev
      rw [call, if_neg (Decidable.not_not.mpr hok)] at hclean
      have hstart := net.serveStart_step dev (plugAddr transport) os
      generalize (net.serveStart dev (plugAddr transport) os).1 = net' at hstart hclean
      cases hstart with
      | refused hnone => exact hjoined hnone
      | joined _ hdevs => exact not_clean_of_twice h hs hdevs hclean
  · exact fun honce => (h.call honce).clean

/-- In a run of calls, whatever they plug and unplug, every unplug at any time takes its device away
for good exactly when no device joins a listener again before it is unplugged. -/
theorem unplug_clean_iff (busid : DevId → String) (acts : List PlugAct) :
    Guarded calls (fun net act => ∀ dev, (net.call act).Clean dev) (created busid) acts ↔
      Guarded calls Once (created busid) acts := by
  refine guarded_congr (fun net act => clean_iff_once) (fun net act net' h honce hcall => ?_)
    (Tied.created busid)
  cases hcall
  exact h.call honce

/-- A device that is plugged twice, to the default address. -/
def pluggedTwice : List PlugAct :=
  let dev := Device.create ⟨0, 0, 0, 0, 0, 0, 0, 0, 0⟩
  [.plug 0 dev none ⟨true, true, true⟩, .plug 0 dev none ⟨true, true, true⟩]

/-- One entry is left on the list. -/
theorem unplug_leaves_entry :
    ¬∀ (busid : DevId → String) (acts : List PlugAct),
      Guarded calls (fun net act => ∀ dev, (net.call act).Clean dev) (created busid) acts := by
  intro h
  have hclean := (h (fun _ => "") pluggedTwice).2 _ rfl
  exact (hclean.1 0).gone ⟨"0.0.0.0", 3240⟩ (by decide)

end Net

end Usbip.Listen
