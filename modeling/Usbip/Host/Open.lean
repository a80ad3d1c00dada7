import Usbip.Control.Partition
import Usbip.Host.Pipes
import Usbip.Host.Requests
import Usbip.Listen.Misread

/-! A host finds a device and opens it: it reads the list of devices on one connection and imports
the device on the next, which then carries its transfers. -/

namespace Usbip.Host

open Lib Listen Wire Control
open Device (u16le)

def usbErrorNoDevice : Int := -4
def usbErrorNotFound : Int := -5

/-- What a connection comes to: nothing accepts it, or a server that has these devices then. -/
abbrev Peer := Option (List Listed)

/-- The request of `usbip_client_import`. -/
def importReq (busid : List UInt8) : List UInt8 :=
  be16 usbipProtoVersion ++ be16 usbipOpReqImport ++ be32 0 ++
    ((busid.takeWhile (· ≠ 0)).take (usbipDevBusidLen - 1)).takeD usbipDevBusidLen 0

/-- `usbip_client_import`, after the request. -/
def clientImport (s : List UInt8) : Except Int DevInfo :=
  match readn usbipOpHdrLen s with
  | none => .error usbErrorIo
  | some (rep, s) =>
    if getBe32 (rep.drop 4) ≠ usbipOpStatusOk then .error usbErrorNotFound
    else
      match readn usbipDevLen s with
      | none => .error usbErrorIo
      | some (dev, _) => .ok (parseDevinfo dev)

/-- `usb_device_descriptor`, as far as the host sets it. -/
structure DeviceDescriptor where
  bcdUSB : UInt16
  bDeviceClass : UInt8
  bDeviceSubClass : UInt8
  bDeviceProtocol : UInt8
  bMaxPacketSize0 : UInt8
  idVendor : UInt16
  idProduct : UInt16
  bcdDevice : UInt16
  bNumConfigurations : UInt8
  deriving DecidableEq, Repr

/-- `usbip_host_get_device_descriptor`. -/
def usbipHostGetDeviceDescriptor (info : DevInfo) : DeviceDescriptor where
  bcdUSB := 0x0200
  bDeviceClass := info.dclass
  bDeviceSubClass := info.dsub
  bDeviceProtocol := info.dproto
  bMaxPacketSize0 := 64
  idVendor := info.vid
  idProduct := info.pid
  bcdDevice := info.bcdDevice
  bNumConfigurations := info.nCfg

structure Handle where
  /-- the connection: the device that the server at its other end serves -/
  fd : Option Nat
  devid : UInt32
  seq : UInt32
  desc : DeviceDescriptor
  deriving DecidableEq, Repr

/-- `usbip_host_get_device_list`: what it makes the devices of. -/
def usbipHostGetDeviceList (peer : Peer) : Except Int (List DevInfo) :=
  match peer with
  | none => .error usbErrorIo
  | some devs =>
    (clientDevlist 16 (handshake devs devlistReq).1).elim (.error usbErrorIo) fun got => .ok got.1

/-- `usbip_host_open`. -/
def usbipHostOpen (info : DevInfo) (peer : Peer) : Except Int Handle :=
  match peer with
  | none => .error usbErrorIo
  | some devs =>
    match clientImport (handshake devs (importReq info.busid)).1 with
    | .error _ => .error usbErrorNoDevice
    | .ok imported =>
      .ok ⟨(handshake devs (importReq info.busid)).2, imported.busnum <<< 16 ||| imported.devnum, 0,
        usbipHostGetDeviceDescriptor info⟩

/-- `usbip_host_open_vid_pid`: the connection that lists, and the one that imports. -/
def usbipHostOpenVidPid (listing importing : Peer) (vid pid : UInt16) : Option Handle :=
  match usbipHostGetDeviceList listing with
  | .error _ => none
  | .ok list =>
    match list.find? fun info => info.vid = vid && info.pid = pid with
    | none => none
    | some info => (usbipHostOpen info importing).toOption

/-! ### The import -/

section

variable (l : Listed)

/-- The name of a device as it is listed, with its end. -/
theorem wireBusid_padded : l.wireBusid.takeD usbipDevBusidLen 0 =
    l.wireBusid ++ List.replicate (31 - l.wireBusid.length) 0 ++ [0] := by
  have hlen := l.wireBusid_length
  rw [takeD_of_length_le 0 (show l.wireBusid.length ≤ usbipDevBusidLen from Nat.le_succ_of_le hlen),
    show usbipDevBusidLen - l.wireBusid.length = 31 - l.wireBusid.length + 1 by
      rw [usbipDevBusidLen]; omega, List.replicate_succ', List.append_assoc]

theorem takeWhile_wireBusid :
    (l.wireBusid.takeD usbipDevBusidLen 0).takeWhile (· ≠ 0) = l.wireBusid := by
  have hnonzero : ∀ b ∈ l.wireBusid, b ≠ 0 := by
    unfold Listed.wireBusid
    split
    · decide +kernel
    · exact l.busid.nonzero
  rw [wireBusid_padded, List.append_assoc, List.takeWhile_append_of_pos (by simpa using hnonzero)]
  cases 31 - l.wireBusid.length <;> simp [List.replicate_succ]

/-- A host asks for a device by the name that was listed. -/
theorem importReq_listed : importReq l.info.busid =
    writeOpHdr usbipOpReqImport 0 ++ l.wireBusid.takeD usbipDevBusidLen 0 := by
  have hbusid : l.info.busid = l.wireBusid.takeD usbipDevBusidLen 0 := rfl
  have hshort : l.wireBusid.take (usbipDevBusidLen - 1) = l.wireBusid :=
    List.take_of_length_le l.wireBusid_length
  rw [importReq, hbusid, takeWhile_wireBusid, hshort]
  rfl

/-- The server looks for that name. -/
theorem handshake_import (devs : List Listed) : handshake devs (importReq l.info.busid) =
    (devs.findIdx? fun m => l.wireBusid = m.busid.bytes).elim
      (writeOpHdr usbipOpRepImport usbipOpStatusError, none) fun i =>
        (writeOpHdr usbipOpRepImport usbipOpStatusOk ++ (devs[i]?.map Listed.pack).getD [],
          some i) := by
  have hhdr : readn usbipOpHdrLen (importReq l.info.busid) =
      some (writeOpHdr usbipOpReqImport 0, l.wireBusid.takeD usbipDevBusidLen 0) := by
    rw [importReq_listed]
    exact readn_append (writeOpHdr usbipOpReqImport 0) _
  have hname : readn usbipDevBusidLen (l.wireBusid.takeD usbipDevBusidLen 0) =
      some (l.wireBusid.takeD usbipDevBusidLen 0, []) := by
    have := readn_append (l.wireBusid.takeD usbipDevBusidLen 0) []
    rwa [List.append_nil, List.takeD_length] at this
  have hlast : (l.wireBusid.takeD usbipDevBusidLen 0).set (usbipDevBusidLen - 1) 0 =
      l.wireBusid.takeD usbipDevBusidLen 0 := by
    have hlen : (l.wireBusid ++ List.replicate (31 - l.wireBusid.length) 0).length =
        usbipDevBusidLen - 1 := by
      have := l.wireBusid_length
      rw [List.length_append, List.length_replicate, usbipDevBusidLen]
      omega
    rw [wireBusid_padded, ← hlen, List.set_append_right _ _ (Nat.le_refl _), Nat.sub_self]
    rfl
  have hcode : getBe16 ((writeOpHdr usbipOpReqImport 0).drop 2) = usbipOpReqImport := by decide
  rw [handshake, hhdr]
  dsimp only
  rw [if_pos hcode, hname]
  dsimp only
  rw [hlast, takeWhile_wireBusid]
  cases devs.findIdx? _ <;> rfl

/-- The reply to an import that finds a device. -/
theorem clientImport_found : clientImport
    (writeOpHdr usbipOpRepImport usbipOpStatusOk ++ l.pack) = .ok (l.infoWith []) := by
  have hhdr := readn_append (writeOpHdr usbipOpRepImport usbipOpStatusOk) l.pack
  have hdev : readn usbipDevLen l.pack = some (l.pack, []) := by
    have := readn_append l.pack []
    rwa [List.append_nil, l.pack_length] at this
  have hok : ¬getBe32 ((writeOpHdr usbipOpRepImport usbipOpStatusOk).drop 4) ≠ usbipOpStatusOk := by
    decide
  rw [clientImport, show usbipOpHdrLen =
    (writeOpHdr usbipOpRepImport usbipOpStatusOk).length from rfl, hhdr]
  dsimp only
  rw [if_neg hok, hdev]
  dsimp only
  rw [l.parse_pack]

end

theorem clientImport_missing :
    clientImport (writeOpHdr usbipOpRepImport usbipOpStatusError) = .error usbErrorNotFound := rfl

/-- The handle of a device that was listed as `l`, where the server serves `m`, the `k`th of those
that it has. -/
def handleOf (l : Listed) (k : Nat) (m : Listed) : Handle :=
  ⟨some k, m.wireBusnum <<< 16 ||| m.wireDevnum, 0, usbipHostGetDeviceDescriptor l.info⟩

/-- The device has these ids. -/
def ids (vid pid : UInt16) (l : Listed) : Bool := l.dev.header.vid = vid && l.dev.header.pid = pid

/-- Of the devices that were listed, `l` is the first with these ids, and of those that the server
has when the host imports, `m` at `k` is the first under the name of `l`. -/
structure Finds (devs later : List Listed) (vid pid : UInt16) (l : Listed) (k : Nat)
    (m : Listed) : Prop where
  listed : (devs.take 16).find? (ids vid pid) = some l
  named : (later.findIdx? fun m => l.wireBusid = m.busid.bytes) = some k
  served : later[k]? = some m

section

variable {devs later : List Listed} {vid pid : UInt16} {h : Handle}

theorem usbipHostOpen_listed (l : Listed) (later : List Listed) :
    (usbipHostOpen l.info (some later)).toOption = some h ↔
      ∃ k m, (later.findIdx? fun m => l.wireBusid = m.busid.bytes) = some k ∧
        later[k]? = some m ∧ h = handleOf l k m := by
  rw [usbipHostOpen, handshake_import]
  cases hfind : later.findIdx? fun m => l.wireBusid = m.busid.bytes with
  | none =>
    rw [Option.elim_none, clientImport_missing]
    simp [Except.toOption]
  | some k =>
    obtain ⟨hlt, -⟩ := List.findIdx?_eq_some_iff_getElem.mp hfind
    have hk : later[k]? = some later[k] := List.getElem?_eq_getElem hlt
    rw [Option.elim_some, hk, Option.map_some, Option.getD_some, clientImport_found]
    constructor
    · intro hopen
      exact ⟨k, _, rfl, hk, (Option.some.inj hopen).symm⟩
    · rintro ⟨_, m, ⟨⟩, hm, rfl⟩
      cases hk.symm.trans hm
      rfl

/-- A handle is had exactly for a device that is found. -/
theorem usbipHostOpenVidPid_iff (hlen : devs.length < 2 ^ 31) (hcounted : ∀ l ∈ devs, l.Counted) :
    usbipHostOpenVidPid (some devs) (some later) vid pid = some h ↔
      ∃ l k m, Finds devs later vid pid l k m ∧ h = handleOf l k m := by
  have hids : (fun info : DevInfo => info.vid = vid && info.pid = pid) ∘ Listed.info =
      ids vid pid := rfl
  rw [usbipHostOpenVidPid, usbipHostGetDeviceList, lists_of_counted hlen hcounted 16,
    Option.elim_some]
  dsimp only
  rw [← List.map_take, List.find?_map, hids]
  cases hfind : (devs.take 16).find? (ids vid pid) with
  | none =>
    rw [Option.map_none]
    refine iff_of_false (by simp) ?_
    rintro ⟨l, k, m, hfinds, -⟩
    cases hfind.symm.trans hfinds.listed
  | some l =>
    rw [Option.map_some]
    dsimp only
    rw [usbipHostOpen_listed]
    constructor
    · rintro ⟨k, m, hnamed, hserved, hh⟩
      exact ⟨l, k, m, ⟨hfind, hnamed, hserved⟩, hh⟩
    · rintro ⟨_, k, m, ⟨hlisted, hnamed, hserved⟩, hh⟩
      cases hfind.symm.trans hlisted
      exact ⟨k, m, hnamed, hserved, hh⟩

/-- Where nothing is plugged or unplugged in between, the names are told apart, and there are no
more devices than a listener has, the device is the first with these ids. -/
theorem finds_unchanged (hnames : (devs.map fun l => l.busid.bytes).Nodup)
    (hnamed : ∀ l ∈ devs, l.busid.bytes ≠ []) (hfew : devs.length ≤ 16) {l m : Listed} {k : Nat} :
    Finds devs devs vid pid l k m ↔
      devs.find? (ids vid pid) = some l ∧ devs[k]? = some l ∧ m = l := by
  have hwire : ∀ l ∈ devs, l.wireBusid = l.busid.bytes := fun l hl => if_neg (hnamed l hl)
  have hall : devs.take 16 = devs := List.take_of_length_le hfew
  constructor
  · rintro ⟨hlisted, hnamed, hserved⟩
    rw [hall] at hlisted
    have hl : l ∈ devs := List.mem_of_find?_eq_some hlisted
    obtain ⟨hlt, hname, -⟩ := List.findIdx?_eq_some_iff_getElem.mp hnamed
    rw [List.getElem?_eq_getElem hlt, Option.some.injEq] at hserved
    subst hserved
    have hsame : l.busid.bytes = devs[k].busid.bytes := by
      rw [← hwire l hl]
      exact of_decide_eq_true hname
    have heq : l = devs[k] := List.inj_on_of_nodup_map hnames hl (List.getElem_mem hlt) hsame
    exact ⟨hlisted, heq ▸ List.getElem?_eq_getElem hlt, heq.symm⟩
  · rintro ⟨hlisted, hk, rfl⟩
    have hm : m ∈ devs := List.mem_of_find?_eq_some hlisted
    obtain ⟨hlt, hat⟩ := List.getElem?_eq_some_iff.mp hk
    refine ⟨by rw [hall]; exact hlisted, ?_, hk⟩
    refine List.findIdx?_eq_some_iff_getElem.mpr ⟨hlt, ?_, fun j hj hname => ?_⟩
    · rw [hat]
      exact decide_eq_true (hwire m hm)
    · have hjlt : j < devs.length := Nat.lt_trans hj hlt
      have hsame : devs[k].busid.bytes = devs[j].busid.bytes := by
        rw [hat, ← hwire m hm]
        exact of_decide_eq_true hname
      have heq : devs[k] = devs[j] :=
        List.inj_on_of_nodup_map hnames (List.getElem_mem hlt) (List.getElem_mem hjlt) hsame
      have hindex : k = j := (List.Nodup.getElem_inj_iff (List.Nodup.of_map _ hnames)).mp heq
      omega

end

/-! ### The core's answers on a whole device -/

section

variable {σ : Type} (dev : PipeDevice σ) {p : Pipes σ} {q : ControlCall} {asked : Asked}

/-- A request that the core answers and that changes nothing is answered as by a device that has no
application. -/
theorem serve_core (hasked : (dev.seen p.facing).asked q.setup = some asked)
    (hkeeps : changes asked = false) (stack : Stack) : dev.serve stack p (.control q) =
      (p, ((ControlDevice.still (dev.seen p.facing) fun _ => uncalled).serve stack () q).2) := by
  have htarget : dev.target p.facing q.setup = none := by
    rw [PipeDevice.target, hasked]
  have hchanges : dev.changes p.facing q.setup q.payload stack.scratch = ⟨p.app, p.config, []⟩ := by
    rw [PipeDevice.changes, hasked]
    cases asked <;> first | rfl | cases hkeeps
  rw [PipeDevice.serve, hchanges, PipeDevice.answer, htarget]
  rfl

theorem ready_core (hasked : (dev.seen p.facing).asked q.setup = some asked)
    (hholds : (dev.seen p.facing).Holds asked) (scratch : Classes.Contents) :
    dev.Ready scratch p (.control q) := by
  have hfits : (dev.seen p.facing).Fits q.setup := by
    rw [Described.Fits, hasked]
    exact hholds
  have htarget : dev.target p.facing q.setup = none := by
    rw [PipeDevice.target, hasked]
  refine ⟨?_, ?_⟩
  · rw [PipeDevice.answer, htarget]
    exact inBounds_of_fits hfits _ _
  · rw [htarget]
    intro slot hslot
    cases hslot

/-- `GET_DESCRIPTOR` for the device descriptor. -/
def getDeviceDescriptor : ControlCall := getDescriptor 1 0 0 18

theorem ready_deviceDescriptor (scratch : Classes.Contents) (p : Pipes σ) :
    dev.Ready scratch p (.control getDeviceDescriptor) := by
  have hasked : (dev.seen p.facing).asked getDeviceDescriptor.setup = some .device :=
    asked_getDescriptor _ _ _ _ _
  exact ready_core dev hasked trivial scratch

theorem serve_deviceDescriptor (stack : Stack) (p : Pipes σ) :
    dev.serve stack p (.control getDeviceDescriptor) =
      (p, .of 0 18 dev.described.dev.buildDeviceDesc) := by
  have hasked : (dev.seen p.facing).asked getDeviceDescriptor.setup = some .device :=
    asked_getDescriptor _ _ _ _ _
  have hreply : ((ControlDevice.still (dev.seen p.facing) fun _ => uncalled).described
      ()).buildDeviceDesc.reply stack.scratch = dev.described.dev.buildDeviceDesc :=
    buildDeviceDesc_reply (dev.seen p.facing) stack.scratch
  rw [serve_core dev hasked rfl, serve_answer hasked rfl rfl rfl, hreply]
  rfl

end

/-! ### The opened device -/

/-- The descriptor in the answer of a device. -/
def DeviceDescriptor.read (b : List UInt8) : DeviceDescriptor where
  bcdUSB := getLe16 (b.drop 2)
  bDeviceClass := byteAt b 4
  bDeviceSubClass := byteAt b 5
  bDeviceProtocol := byteAt b 6
  bMaxPacketSize0 := byteAt b 7
  idVendor := getLe16 (b.drop 8)
  idProduct := getLe16 (b.drop 10)
  bcdDevice := getLe16 (b.drop 12)
  bNumConfigurations := byteAt b 17

/-- A device that a server has: what the handshake reads of it, the application with its pipes, and
what the serve loop will find on its stack. -/
structure Exported (σ : Type) where
  listed : Listed
  dev : PipeDevice σ
  same : dev.described.dev = listed.dev
  state : Piped σ
  frames : Nat → Stack

/-- What the handle of a device that was listed as `l` is good for, when the server serves `x`. -/
structure Serves {σ : Type} (l : Listed) (x : Exported σ) (h : Handle) : Prop where
  /-- a program on the handle gets what it would get of the device on the spot -/
  runs : ∀ {before : Pipes σ}, x.dev.Mirrors x.state before → ∀ {α : Type}
    {program : Calls Transfer Outcome α},
    program.Meets (servePipes x.dev) (readyPipes x.dev) (before, x.frames) → ∃ s seq,
      (pipeLink x.dev h.devid).run ⟨(x.state, x.frames), h.seq, [], []⟩ program =
        some (⟨s, seq, [], []⟩, (program.run (servePipes x.dev) (before, x.frames)).2) ∧
      x.dev.Mirrors s.1 (program.run (servePipes x.dev) (before, x.frames)).1.1
  /-- the device answers with the descriptor of the handle, but for the version that it complies
  with -/
  describes : x.listed.dev.header = l.dev.header → ∀ {before : Pipes σ},
    x.dev.Mirrors x.state before → ∃ ends got,
      (pipeLink x.dev h.devid).run ⟨(x.state, x.frames), h.seq, [], []⟩
        (.call (.control getDeviceDescriptor) .done) = some (ends, got) ∧
      got = .of 0 18 got.data ∧ { DeviceDescriptor.read got.data with bcdUSB := 0x0200 } = h.desc

section

variable {σ : Type}

theorem runs_of_carries (x : Exported σ) (h : Handle) {before : Pipes σ}
    (hbefore : x.dev.Mirrors x.state before) {α : Type} {program : Calls Transfer Outcome α}
    (hprogram : program.Meets (servePipes x.dev) (readyPipes x.dev) (before, x.frames)) :
    ∃ s seq, (pipeLink x.dev h.devid).run ⟨(x.state, x.frames), h.seq, [], []⟩ program =
        some (⟨s, seq, [], []⟩, (program.run (servePipes x.dev) (before, x.frames)).2) ∧
      x.dev.Mirrors s.1 (program.run (servePipes x.dev) (before, x.frames)).1.1 := by
  obtain ⟨s, seq, ⟨hmirrors, -⟩, hrun⟩ := (pipeLink_carries x.dev h.devid).run
    (s := (x.state, x.frames)) (t := (before, x.frames)) ⟨hbefore, rfl⟩ hprogram h.seq
  exact ⟨s, seq, hrun, hmirrors⟩

theorem read_buildDeviceDesc (dev : Device) :
    { DeviceDescriptor.read dev.buildDeviceDesc with bcdUSB := 0x0200 } =
      ⟨0x0200, dev.header.devClass, dev.header.devSub, dev.header.devProto, 64, dev.header.vid,
        dev.header.pid, dev.header.bcdDevice, 1⟩ := by
  have hvid : (DeviceDescriptor.read dev.buildDeviceDesc).idVendor = dev.header.vid :=
    getLe16_u16le dev.header.vid (u16le dev.header.pid ++ (u16le dev.header.bcdDevice ++
      [dev.header.iMfr, dev.header.iProd, dev.header.iSer, 1]))
  have hpid : (DeviceDescriptor.read dev.buildDeviceDesc).idProduct = dev.header.pid :=
    getLe16_u16le dev.header.pid (u16le dev.header.bcdDevice ++
      [dev.header.iMfr, dev.header.iProd, dev.header.iSer, 1])
  have hrelease : (DeviceDescriptor.read dev.buildDeviceDesc).bcdDevice = dev.header.bcdDevice :=
    getLe16_u16le dev.header.bcdDevice [dev.header.iMfr, dev.header.iProd, dev.header.iSer, 1]
  dsimp only
  rw [hvid, hpid, hrelease]
  rfl

theorem serves_handleOf (l : Listed) (k : Nat) (x : Exported σ) :
    Serves l x (handleOf l k x.listed) where
  runs hbefore _ _ hprogram := runs_of_carries x _ hbefore hprogram
  describes hheader before hbefore := by
    have hready : (Calls.call (.control getDeviceDescriptor) .done :
        Calls Transfer Outcome Outcome).Meets (servePipes x.dev) (readyPipes x.dev)
          (before, x.frames) := ⟨ready_deviceDescriptor x.dev _ before, trivial⟩
    obtain ⟨s, seq, hrun, -⟩ := runs_of_carries x (handleOf l k x.listed) hbefore hready
    have hgot := congrArg Prod.snd (serve_deviceDescriptor x.dev (x.frames 0) before)
    refine ⟨_, _, hrun.trans (congrArg (fun got => some (_, got)) hgot), rfl, ?_⟩
    have hread := read_buildDeviceDesc x.dev.described.dev
    rw [x.same, hheader] at hread
    rw [x.same]
    exact hread

/-- A host that opens by ids gets a handle exactly when one of the first 16 devices that were listed
has them, and its name is that of a device when the host imports.  The handle is then for the first
device of that name. -/
theorem opened {devs : List Listed} (hlen : devs.length < 2 ^ 31) (hcounted : ∀ l ∈ devs, l.Counted)
    (bench : List (Exported σ)) (vid pid : UInt16) (h : Handle) :
    usbipHostOpenVidPid (some devs) (some (bench.map Exported.listed)) vid pid = some h ↔
      ∃ l k x, Finds devs (bench.map Exported.listed) vid pid l k x.listed ∧ bench[k]? = some x ∧
        h = handleOf l k x.listed ∧ Serves l x h := by
  rw [usbipHostOpenVidPid_iff hlen hcounted]
  constructor
  · rintro ⟨l, k, m, hfinds, rfl⟩
    have hserved := hfinds.served
    rw [List.getElem?_map, Option.map_eq_some_iff] at hserved
    obtain ⟨x, hx, rfl⟩ := hserved
    exact ⟨l, k, x, hfinds, hx, rfl, serves_handleOf l k x⟩
  · rintro ⟨l, k, x, hfinds, -, rfl, -⟩
    exact ⟨l, k, x.listed, hfinds, rfl⟩

end

/-- A device of two interfaces, plugged under a name of its own. -/
def pluggedAs (pid : UInt16) (busid : CStr 32) (devnum : UInt32) : Listed :=
  { Listed.built ⟨0x1209, pid, 0x0100, 0, 0, 0, 0, 0, 0⟩ twoRun with busid, devnum }

def firstPlugged : Listed := pluggedAs 1 ⟨ascii "1-1", by decide +kernel, by decide⟩ 2
def secondPlugged : Listed := pluggedAs 2 ⟨ascii "1-2", by decide +kernel, by decide⟩ 3

/-- Its application does nothing. -/
def exportedIdle (l : Listed) : Exported Unit where
  listed := l
  dev :=
    { described := { withFallback with dev := l.dev }
      control := fun st _ _ _ _ => (⟨[], st, -1⟩, [])
      setAlt := fun st _ _ _ => (st, [])
      hasOnOut := fun _ => false
      onOut := fun st _ _ => (st, [])
      stray := fun _ _ => none }
  same := rfl
  state := ⟨(), fun _ => .new false, 0⟩
  frames _ := ⟨.zero, fun _ => 0⟩

/-- The first device is unplugged before the host imports the second. -/
theorem opened_second :
    usbipHostOpenVidPid (some [firstPlugged, secondPlugged])
      (some ([exportedIdle secondPlugged].map Exported.listed)) 0x1209 2 =
        some (handleOf secondPlugged 0 secondPlugged) := by
  have hfirst : firstPlugged.Counted := rfl
  have hsecond : secondPlugged.Counted := rfl
  refine (opened (by decide) ?_ [exportedIdle secondPlugged] 0x1209 2 _).mpr
    ⟨secondPlugged, 0, exportedIdle secondPlugged, ⟨rfl, rfl, rfl⟩, rfl, rfl, serves_handleOf _ 0 _⟩
  simpa using ⟨hfirst, hsecond⟩

end Usbip.Host
