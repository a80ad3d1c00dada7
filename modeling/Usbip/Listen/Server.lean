import Mathlib.Data.List.Nodup
import Usbip.Lib.Run
import Usbip.Types

/-! The listeners that devices share: devices are plugged and unplugged, each under a name and an
address on the wire that it gets when it joins a listener. -/

namespace Usbip.Listen

open Lib

/-- A device: the identity of its `struct usbip_device`. -/
abbrev DevId := Nat

/-- `host` and `port`, which name a listener. -/
structure Addr where
  host : String
  port : Int
  deriving DecidableEq, Repr

/-- What serving writes to `struct usbip_device`. -/
structure Identity where
  busid : String
  busnum : UInt32
  devnum : UInt32
  server : Option Addr
  deriving DecidableEq, Repr

structure Server where
  running : Bool
  devs : List DevId
  nextDevnum : UInt32
  deriving DecidableEq, Repr

/-- A `struct usbip_server` as it is made. -/
def Server.new : Server := ⟨false, [], 0⟩

/-- All devices, and the list `g_servers`. -/
structure Net where
  device : DevId → Identity
  server : Addr → Option Server

def usbipDevBusnum : UInt32 := 1
def usbipDevDevnum : UInt32 := 2
def usbipMaxDevices : Nat := 16

/-- What the operating system grants when a device is plugged: the memory for a listener, a bound
socket, the accept thread. -/
structure Os where
  memory : Bool
  socket : Bool
  thread : Bool
  deriving DecidableEq, Repr

namespace Net

def setDevice (net : Net) (dev : DevId) (id : Identity) : Net :=
  { net with device := fun d => if d = dev then id else net.device d }

def setServer (net : Net) (addr : Addr) (server : Server) : Net :=
  { net with server := fun a => if a = addr then some server else net.server a }

def devs (net : Net) (addr : Addr) : List DevId := ((net.server addr).getD .new).devs

def serverFor (net : Net) (addr : Addr) (os : Os) : Option Server :=
  match net.server addr with
  | some server => some server
  | none => if os.memory then some .new else none

def serverStart (server : Server) (os : Os) : Server × Int :=
  if !os.socket then (server, usbErrorIo)
  else if !os.thread then
    ({ server with running := false, nextDevnum := usbipDevDevnum }, usbErrorOther)
  else ({ server with running := true, nextDevnum := usbipDevDevnum }, usbSuccess)

/-- The busid a device carries on the listener: the one it has, or the next one of the listener. -/
def busidFor (net : Net) (dev : DevId) (server : Server) : String :=
  if (net.device dev).busid = "" then "1-" ++ toString (server.devs.length + 1)
  else (net.device dev).busid

def join (net : Net) (dev : DevId) (addr : Addr) (server : Server) : Net :=
  (net.setDevice dev ⟨net.busidFor dev server, usbipDevBusnum, server.nextDevnum, some addr⟩).setServer
    addr { server with nextDevnum := server.nextDevnum + 1, devs := server.devs ++ [dev] }

/-- The listener as a device joins it, when it is there or can be started, and has room. -/
def joining (server : Server) (os : Os) : Except (Server × Int) Server :=
  if usbipMaxDevices ≤ server.devs.length then .error (server, usbErrorNoMem)
  else if server.running then .ok server
  else
    let (server, rc) := serverStart server os
    if rc ≠ usbSuccess then .error (server, rc) else .ok server

/-- `usbip_serve_start`, for a device whose `host` and `port` are `addr`. -/
def serveStart (net : Net) (dev : DevId) (addr : Addr) (os : Os) : Net × Int :=
  match net.serverFor addr os with
  | none => (net, usbErrorNoMem)
  | some server =>
    match joining server os with
    | .error (server, rc) => (net.setServer addr server, rc)
    | .ok server => (net.join dev addr server, usbSuccess)

/-- `usbip_serve_stop`, with `server_stop` for the listener that is left without devices. -/
def serveStop (net : Net) (dev : DevId) : Net :=
  match (net.device dev).server with
  | none => net
  | some addr =>
    let server := (net.server addr).getD .new
    let devs := server.devs.erase dev
    (net.setServer addr { server with devs, running := server.running && !devs.isEmpty }).setDevice
      dev { net.device dev with server := none }

/-- The lookup of `handshake` for OP_REQ_IMPORT. -/
def importDev (net : Net) (addr : Addr) (busid : String) : Option DevId :=
  (net.devs addr).find? fun dev => (net.device dev).busid = busid

/-- Devices just created, and no listener. -/
def initial : Net := ⟨fun _ => ⟨"", 0, 0, none⟩, fun _ => none⟩

end Net

/-- The calls that plug and unplug devices. -/
inductive ServeAct
  | start (dev : DevId) (addr : Addr) (os : Os)
  | stop (dev : DevId)
  deriving DecidableEq, Repr

namespace Net

variable {net : Net} {dev d : DevId} {addr a : Addr} {os : Os} {server : Server}

/-- One call. A device that is exported is not started again. -/
def step (net : Net) : ServeAct → Option Net
  | .start dev addr os =>
    if (net.device dev).server = none then some (net.serveStart dev addr os).1 else none
  | .stop dev => some (net.serveStop dev)

/-- The listener that a start takes the device into, as it is when the device joins. -/
def joined (net : Net) (addr : Addr) (os : Os) : Option Server :=
  (net.serverFor addr os).bind fun server => (joining server os).toOption

/-- What a start can do: leave all devices and the population of all listeners, or join. -/
inductive StartStep (net : Net) (dev : DevId) (addr : Addr) (os : Os) : Net → Prop
  | refused {net' : Net} (none : net.joined addr os = none) (device : net'.device = net.device)
    (devs : net'.devs = net.devs) : StartStep net dev addr os net'
  | joined {server : Server} (some : net.joined addr os = some server)
    (devs : server.devs = net.devs addr) : StartStep net dev addr os (net.join dev addr server)

theorem devs_setServer (net : Net) (addr : Addr) (server : Server) (a : Addr) :
    (net.setServer addr server).devs a = if a = addr then server.devs else net.devs a := by
  simp only [devs, setServer]
  split <;> rfl

theorem devs_setServer_self (h : server.devs = net.devs addr) :
    (net.setServer addr server).devs = net.devs := by
  funext a
  rw [devs_setServer]
  split
  · rename_i ha
    rw [h, ha]
  · rfl

theorem serverFor_devs (h : net.serverFor addr os = some server) :
    server.devs = net.devs addr := by
  rw [serverFor] at h
  rw [devs]
  split at h
  · rename_i heq
    cases h
    rw [heq]
    rfl
  · rename_i heq
    split at h
    · cases h
      rw [heq]
      rfl
    · cases h

theorem serverStart_devs (server : Server) (os : Os) :
    (serverStart server os).1.devs = server.devs := by
  rw [serverStart]
  split
  · rfl
  · split <;> rfl

theorem joining_devs (server : Server) (os : Os) :
    match joining server os with
    | .error (server', _) => server'.devs = server.devs
    | .ok server' => server'.devs = server.devs := by
  by_cases hfull : usbipMaxDevices ≤ server.devs.length
  · rw [joining, if_pos hfull]
  · by_cases hrun : server.running
    · rw [joining, if_neg hfull, if_pos hrun]
    · have hdevs := serverStart_devs server os
      rw [joining, if_neg hfull, if_neg hrun]
      by_cases hrc : (serverStart server os).2 ≠ usbSuccess
      · simp only [if_pos hrc, hdevs]
      · simp only [if_neg hrc, hdevs]

theorem serveStart_step (net : Net) (dev : DevId) (addr : Addr) (os : Os) :
    StartStep net dev addr os (net.serveStart dev addr os).1 := by
  rw [serveStart]
  cases hfor : net.serverFor addr os with
  | none => exact .refused (by rw [joined, hfor]; rfl) rfl rfl
  | some server =>
    have hdevs := joining_devs server os
    rw [serverFor_devs hfor] at hdevs
    dsimp only
    cases hjoin : joining server os with
    | error e =>
      rw [hjoin] at hdevs
      exact .refused (by rw [joined, hfor, Option.bind_some, hjoin]; rfl) rfl
        (devs_setServer_self hdevs)
    | ok server' =>
      rw [hjoin] at hdevs
      exact .joined (by rw [joined, hfor, Option.bind_some, hjoin]; rfl) hdevs

/-- The listeners' tables and the devices' own fields agree. -/
structure Linked (net : Net) : Prop where
  home : ∀ {dev addr}, dev ∈ net.devs addr → (net.device dev).server = some addr
  nodup : ∀ addr, (net.devs addr).Nodup
  busnum : ∀ {dev addr}, dev ∈ net.devs addr → (net.device dev).busnum = usbipDevBusnum

/-- Names and addresses tell the devices of a listener apart, and an import attaches the device it
names. -/
structure Identified (net : Net) : Prop where
  busid : ∀ addr, ((net.devs addr).map fun dev => (net.device dev).busid).Nodup
  address : ∀ addr,
    ((net.devs addr).map fun dev => ((net.device dev).busnum, (net.device dev).devnum)).Nodup
  attach : ∀ {addr dev}, dev ∈ net.devs addr →
    net.importDev addr (net.device dev).busid = some dev

/-- A device that joins has a name and an address that no device of the listener has. -/
def Fresh (net : Net) : ServeAct → Prop
  | .start dev addr os => ∀ server ∈ net.joined addr os, ∀ other ∈ net.devs addr,
    (net.device other).busid ≠ net.busidFor dev server ∧
      (net.device other).devnum ≠ server.nextDevnum
  | .stop _ => True

theorem find_key {α β : Type} [DecidableEq β] (f : α → β) {l : List α} {x : α}
    (h : (l.map f).Nodup) (hx : x ∈ l) : (l.find? fun y => f y = f x) = some x := by
  induction l with
  | nil => cases hx
  | cons y l ih =>
    obtain ⟨hy, hl⟩ := List.nodup_cons.mp h
    rcases List.mem_cons.mp hx with rfl | hx
    · rw [List.find?_cons_of_pos (by simp)]
    · have hne : f y ≠ f x := fun heq => hy (heq ▸ List.mem_map_of_mem hx)
      rw [List.find?_cons_of_neg (by simpa using hne)]
      exact ih hl hx

theorem Identified.of_nodup
    (busid : ∀ addr, ((net.devs addr).map fun dev => (net.device dev).busid).Nodup)
    (address : ∀ addr,
      ((net.devs addr).map fun dev => ((net.device dev).busnum, (net.device dev).devnum)).Nodup) :
    net.Identified where
  busid := busid
  address := address
  attach hdev := find_key _ (busid _) hdev

/-- Nothing of these depends on more than the tables and the devices in them. -/
theorem Linked.congr {net' : Net} (h : net.Linked) (hdev : net'.device = net.device)
    (hdevs : net'.devs = net.devs) : net'.Linked where
  home := by rw [hdev, hdevs]; exact h.home
  nodup := by rw [hdevs]; exact h.nodup
  busnum := by rw [hdev, hdevs]; exact h.busnum

theorem Identified.congr {net' : Net} (h : net.Identified) (hdev : net'.device = net.device)
    (hdevs : net'.devs = net.devs) : net'.Identified :=
  .of_nodup (by rw [hdev, hdevs]; exact h.busid) (by rw [hdev, hdevs]; exact h.address)

section join

theorem devs_join (hdevs : server.devs = net.devs addr) (a : Addr) :
    (net.join dev addr server).devs a =
      if a = addr then net.devs addr ++ [dev] else net.devs a := by
  rw [join, devs_setServer, ← hdevs]
  rfl

theorem device_join_self :
    (net.join dev addr server).device dev =
      ⟨net.busidFor dev server, usbipDevBusnum, server.nextDevnum, some addr⟩ := if_pos rfl

theorem device_join_of_ne (h : d ≠ dev) : (net.join dev addr server).device d = net.device d :=
  if_neg h

/-- A device that no listener has is none of those a listener has. -/
theorem Linked.ne_of_mem (h : net.Linked) (hout : (net.device dev).server = none)
    (hd : d ∈ net.devs a) : d ≠ dev := by
  rintro rfl
  cases (h.home hd).symm.trans hout

theorem map_devs_join {β : Type} (f : Identity → β) (h : net.Linked)
    (hout : (net.device dev).server = none) (hdevs : server.devs = net.devs addr) (a : Addr) :
    (((net.join dev addr server).devs a).map fun d => f ((net.join dev addr server).device d)) =
      ((net.devs a).map fun d => f (net.device d)) ++
        if a = addr then [f ((net.join dev addr server).device dev)] else [] := by
  have hold : ((net.devs a).map fun d => f ((net.join dev addr server).device d)) =
      (net.devs a).map fun d => f (net.device d) :=
    List.map_congr_left fun d hd => by rw [device_join_of_ne (h.ne_of_mem hout hd)]
  rw [devs_join hdevs]
  split
  · rename_i ha
    subst ha
    rw [List.map_append, hold]
    rfl
  · rw [hold, List.append_nil]

theorem Linked.join (h : net.Linked) (hout : (net.device dev).server = none)
    (hdevs : server.devs = net.devs addr) : (net.join dev addr server).Linked where
  home {d a} hd := by
    rw [devs_join hdevs] at hd
    by_cases hne : d = dev
    · subst hne
      rw [device_join_self]
      split at hd
      · rename_i ha
        rw [ha]
      · exact absurd rfl (h.ne_of_mem hout hd)
    · rw [device_join_of_ne hne]
      split at hd
      · rename_i ha
        rw [ha]
        exact h.home ((List.mem_append.mp hd).resolve_right (by simpa using hne))
      · exact h.home hd
  nodup a := by
    rw [devs_join hdevs]
    split
    · refine List.nodup_append.mpr ⟨h.nodup addr, List.nodup_singleton dev, ?_⟩
      intro d hd e he
      rw [List.mem_singleton.mp he]
      exact h.ne_of_mem hout hd
    · exact h.nodup a
  busnum {d a} hd := by
    rw [devs_join hdevs] at hd
    by_cases hne : d = dev
    · rw [hne, device_join_self]
    · rw [device_join_of_ne hne]
      split at hd
      · exact h.busnum ((List.mem_append.mp hd).resolve_right (by simpa using hne))
      · exact h.busnum hd

theorem nodup_map_join {β : Type} (f : Identity → β) (h : net.Linked)
    (hout : (net.device dev).server = none) (hdevs : server.devs = net.devs addr)
    (hnodup : ∀ a, ((net.devs a).map fun d => f (net.device d)).Nodup) :
    (∀ a, (((net.join dev addr server).devs a).map fun d =>
        f ((net.join dev addr server).device d)).Nodup) ↔
      ∀ other ∈ net.devs addr, f (net.device other) ≠ f ((net.join dev addr server).device dev) := by
  constructor
  · intro hall other hother heq
    have := hall addr
    rw [map_devs_join f h hout hdevs, if_pos rfl] at this
    exact (List.nodup_append.mp this).2.2 _ (List.mem_map_of_mem hother) _
      (List.mem_singleton_self _) heq
  · intro hnew a
    rw [map_devs_join f h hout hdevs]
    split
    · rename_i ha
      refine List.nodup_append.mpr ⟨hnodup a, List.nodup_singleton _, ?_⟩
      intro x hx y hy
      obtain ⟨other, hother, rfl⟩ := List.mem_map.mp hx
      rw [List.mem_singleton.mp hy]
      exact hnew other (ha ▸ hother)
    · rw [List.append_nil]
      exact hnodup a

end join

theorem serveStop_none (h : (net.device dev).server = none) : net.serveStop dev = net := by
  rw [serveStop, h]

theorem devs_serveStop (h : (net.device dev).server = some addr) (a : Addr) :
    (net.serveStop dev).devs a = if a = addr then (net.devs addr).erase dev else net.devs a := by
  rw [serveStop, h]
  exact devs_setServer net addr _ a

theorem device_serveStop (h : (net.device dev).server = some addr) (d : DevId) :
    (net.serveStop dev).device d =
      if d = dev then { net.device dev with server := none } else net.device d := by
  rw [serveStop, h]
  rfl

/-- A stop takes a device out of a listener and changes no name and no address. -/
theorem devs_serveStop_sublist (net : Net) (dev : DevId) (a : Addr) :
    ((net.serveStop dev).devs a).Sublist (net.devs a) := by
  cases h : (net.device dev).server with
  | none => rw [serveStop_none h]
  | some addr =>
    rw [devs_serveStop h]
    split
    · rename_i ha
      rw [ha]
      exact List.erase_sublist
    · exact List.Sublist.refl _

theorem identity_serveStop (net : Net) (dev d : DevId) :
    ((net.serveStop dev).device d).busid = (net.device d).busid ∧
      ((net.serveStop dev).device d).busnum = (net.device d).busnum ∧
      ((net.serveStop dev).device d).devnum = (net.device d).devnum := by
  cases h : (net.device dev).server with
  | none =>
    rw [serveStop_none h]
    exact ⟨rfl, rfl, rfl⟩
  | some addr =>
    rw [device_serveStop h]
    split
    · rename_i hd
      rw [hd]
      exact ⟨rfl, rfl, rfl⟩
    · exact ⟨rfl, rfl, rfl⟩

theorem Linked.stop (h : net.Linked) (dev : DevId) : (net.serveStop dev).Linked where
  home {d a} hd := by
    have hold := h.home ((devs_serveStop_sublist net dev a).subset hd)
    cases hs : (net.device dev).server with
    | none => rw [serveStop_none hs]; exact hold
    | some addr =>
      rw [device_serveStop hs]
      split
      · -- the device itself is in no list any more
        rename_i hdev
        rw [hdev] at hold hd
        cases hs.symm.trans hold
        rw [devs_serveStop hs, if_pos rfl] at hd
        exact absurd hd (List.Nodup.not_mem_erase (h.nodup a))
      · exact hold
  nodup a := (devs_serveStop_sublist net dev a).nodup (h.nodup a)
  busnum {d a} hd := by
    rw [(identity_serveStop net dev d).2.1]
    exact h.busnum ((devs_serveStop_sublist net dev a).subset hd)

theorem Identified.stop (h : net.Identified) (dev : DevId) : (net.serveStop dev).Identified := by
  refine .of_nodup (fun a => ?_) (fun a => ?_)
  · simp only [fun d => (identity_serveStop net dev d).1]
    exact ((devs_serveStop_sublist net dev a).map _).nodup (h.busid a)
  · simp only [fun d => (identity_serveStop net dev d).2]
    exact ((devs_serveStop_sublist net dev a).map _).nodup (h.address a)

theorem Linked.initial : initial.Linked where
  home h := nomatch h
  nodup _ := List.nodup_nil
  busnum h := nomatch h

theorem Identified.initial : initial.Identified :=
  .of_nodup (fun _ => List.nodup_nil) (fun _ => List.nodup_nil)

theorem Linked.step {act : ServeAct} {net' : Net} (h : net.Linked) (hstep : net.step act = some net') :
    net'.Linked := by
  cases act with
  | start dev addr os =>
    obtain ⟨hout, heq⟩ := Option.ite_none_right_eq_some.mp hstep
    cases heq
    have hs := net.serveStart_step dev addr os
    generalize (net.serveStart dev addr os).1 = net' at hs
    cases hs with
    | refused _ hdev hdevs => exact h.congr hdev hdevs
    | joined _ hdevs => exact h.join hout hdevs
  | stop dev =>
    cases hstep
    exact h.stop dev

/-- A step keeps the devices apart exactly when the device that joins, if there is one, has a new
name and a new address. -/
theorem step_identified_iff {act : ServeAct} {net' : Net} (h : net.Linked) (hid : net.Identified)
    (hstep : net.step act = some net') : net'.Identified ↔ net.Fresh act := by
  cases act with
  | start dev addr os =>
    obtain ⟨hout, heq⟩ := Option.ite_none_right_eq_some.mp hstep
    cases heq
    have hs := net.serveStart_step dev addr os
    generalize (net.serveStart dev addr os).1 = net' at hs
    cases hs with
    | refused hnone hdev hdevs =>
      refine ⟨fun _ server hserver => ?_, fun _ => hid.congr hdev hdevs⟩
      cases hnone.symm.trans hserver
    | @joined server hsome hdevs =>
      have hbusid := nodup_map_join Identity.busid h hout hdevs hid.busid
      have haddress := nodup_map_join (fun id => (id.busnum, id.devnum)) h hout hdevs hid.address
      rw [device_join_self] at hbusid haddress
      constructor
      · rintro hid' server' hserver' other hother
        cases hsome.symm.trans hserver'
        refine ⟨hbusid.mp hid'.busid other hother, fun heq => ?_⟩
        exact haddress.mp hid'.address other hother (Prod.ext (h.busnum hother) heq)
      · intro hfresh
        have hfresh := hfresh server hsome
        refine .of_nodup (hbusid.mpr fun other hother => (hfresh other hother).1)
          (haddress.mpr fun other hother heq => ?_)
        exact (hfresh other hother).2 (congrArg Prod.snd heq)
  | stop dev =>
    cases hstep
    exact ⟨fun _ => trivial, fun _ => hid.stop dev⟩

/-- The devices of every listener stay apart, through any calls, exactly as long as no device joins
under a name or an address that an exported one has. -/
theorem identified_iff_fresh {acts : List ServeAct} {net : Net}
    (h : exec step initial acts = some net) :
    Throughout step Identified initial acts ↔ Guarded step Fresh initial acts :=
  throughout_iff_guarded (I := fun net => net.Linked ∧ net.Identified) (P := Identified) (fun _ h => h.2)
    (fun _ _ _ h hfresh hstep => ⟨h.1.step hstep, (step_identified_iff h.1 h.2 hstep).mpr hfresh⟩)
    (fun _ _ _ h hnot hstep hid => hnot ((step_identified_iff h.1 h.2 hstep).mp hid))
    ⟨.initial, .initial⟩ h

/-- The devices 0 and 1 are plugged, 0 is unplugged, and 2 is plugged. -/
def replugRun : List ServeAct :=
  [.start 0 ⟨"", 3240⟩ ⟨true, true, true⟩, .start 1 ⟨"", 3240⟩ ⟨true, true, true⟩, .stop 0,
    .start 2 ⟨"", 3240⟩ ⟨true, true, true⟩]

/-- Devices 1 and 2 are both "1-2" after `replugRun`. -/
theorem identified_fails :
    ¬∀ acts net, exec step initial acts = some net → Throughout step Identified initial acts := by
  intro h
  let net := (exec step initial replugRun).get (by decide +kernel)
  have hexec : exec step initial replugRun = some net := (Option.some_get _).symm
  have hid := (h replugRun net hexec).last hexec
  have hbusid := hid.busid ⟨"", 3240⟩
  revert hbusid
  decide +kernel

/-- The device 0 comes back under its name. -/
def rejoinRun : List ServeAct :=
  [.start 0 ⟨"", 3240⟩ ⟨true, true, true⟩, .start 1 ⟨"", 3240⟩ ⟨true, true, true⟩, .stop 0,
    .start 0 ⟨"", 3240⟩ ⟨true, true, true⟩]

theorem identified_iff_on_rejoinRun :
    Throughout step Identified initial rejoinRun ↔ Guarded step Fresh initial rejoinRun :=
  identified_iff_fresh (Option.some_get (by decide +kernel)).symm

end Net

end Usbip.Listen
