import Usbip.Lib.Bytes
import Usbip.Build.Device

/-! The handshake on a new connection: the list of devices that the server sends, and the client
that reads it. -/

namespace Usbip.Listen

open Lib

/-- The bytes of a string literal. -/
def ascii (s : String) : List UInt8 := s.toList.map fun c => c.toNat.toUInt8

/-- A C string in a `char [cap]`. -/
structure CStr (cap : Nat) where
  bytes : List UInt8
  nonzero : ∀ b ∈ bytes, b ≠ 0
  short : bytes.length < cap

/-- A device in `server->devs`, as far as the handshake reads it. -/
structure Listed where
  dev : Device
  /-- the bytes of `descr` behind the first `descr_len`, which a cut-off descriptor may reach -/
  behind : List UInt8
  busid : CStr 32
  busnum : UInt32
  devnum : UInt32
  speed : Nat
  /-- the only bus there is, or none before the device has joined a listener -/
  busnum_one : busnum = 0 ∨ busnum = 1

def usbipProtoVersion : UInt16 := 0x0111
def usbipOpReqImport : UInt16 := 0x8003
def usbipOpRepImport : UInt16 := 0x0003
def usbipOpReqDevlist : UInt16 := 0x8005
def usbipOpRepDevlist : UInt16 := 0x0005
def usbipOpStatusOk : UInt32 := 0
def usbipOpStatusError : UInt32 := 1

def usbipOpHdrLen : Nat := 8
def usbipDevLen : Nat := 312
def usbipDevBusidLen : Nat := 32
def usbipIfaceTupleLen : Nat := 4

namespace Listed

def buf (l : Listed) : List UInt8 := l.dev.descr ++ l.behind

/-- `dev->busid[0] ? dev->busid : "1-1"`. -/
def wireBusid (l : Listed) : List UInt8 := if l.busid.bytes = [] then ascii "1-1" else l.busid.bytes

def wireBusnum (l : Listed) : UInt32 := if l.busnum ≠ 0 then l.busnum else 1
def wireDevnum (l : Listed) : UInt32 := if l.devnum ≠ 0 then l.devnum else 2

/-- `wire_speed`, with full speed for what is no `usb_speed`. -/
def wireSpeed (l : Listed) : UInt32 := [1, 2, 3, 5].getD (if l.speed ≤ 3 then l.speed else 1) 0

/-- `"/sys/devices/platform/vhci_hcd.0/usb1/%s"` in 256 bytes. -/
def path (l : Listed) : List UInt8 :=
  ((ascii "/sys/devices/platform/vhci_hcd.0/usb1/" ++ l.wireBusid).take 255).takeD 256 0

def pack (l : Listed) : List UInt8 :=
  l.path ++ l.wireBusid.takeD usbipDevBusidLen 0 ++ be32 l.wireBusnum ++ be32 l.wireDevnum ++
    be32 l.wireSpeed ++ be16 l.dev.header.vid ++ be16 l.dev.header.pid ++
    be16 l.dev.header.bcdDevice ++
    [l.dev.header.devClass, l.dev.header.devSub, l.dev.header.devProto, 1, 1,
      l.dev.nIfnums.toUInt8]

/-- The loop of `emit_iface_list`. -/
def emitFrom (buf : List UInt8) (len : Nat) : Nat → Nat → List UInt8
  | 0, _ => []
  | fuel + 1, off =>
    if off + 2 ≤ len then
      (if byteAt buf (off + 1) = usbDtInterface ∧ byteAt buf (off + 3) = 0 then
        [byteAt buf (off + 5), byteAt buf (off + 6), byteAt buf (off + 7), 0]
      else []) ++
        emitFrom buf len fuel (off + if byteAt buf off ≠ 0 then (byteAt buf off).toNat else 1)
    else []

def emitIfaceList (l : Listed) : List UInt8 :=
  emitFrom l.buf l.dev.descr.length l.dev.descr.length 0

end Listed

def writeOpHdr (code : UInt16) (status : UInt32) : List UInt8 :=
  be16 usbipProtoVersion ++ be16 code ++ be32 status

/-- `handshake`: what is written on the connection, and the index of the device imported. -/
def handshake (devs : List Listed) (input : List UInt8) : List UInt8 × Option Nat :=
  match readn usbipOpHdrLen input with
  | none => ([], none)
  | some (op, input) =>
    if getBe16 (op.drop 2) = usbipOpReqImport then
      match readn usbipDevBusidLen input with
      | none => ([], none)
      | some (busid, _) =>
        let busid := (busid.set (usbipDevBusidLen - 1) 0).takeWhile (· ≠ 0)
        match devs.findIdx? fun l => busid = l.busid.bytes with
        | some i =>
          (writeOpHdr usbipOpRepImport usbipOpStatusOk ++ (devs[i]?.map Listed.pack).getD [],
            some i)
        | none => (writeOpHdr usbipOpRepImport usbipOpStatusError, none)
    else if getBe16 (op.drop 2) = usbipOpReqDevlist then
      (writeOpHdr usbipOpRepDevlist usbipOpStatusOk ++ be32 devs.length.toUInt32 ++
        devs.flatMap fun l => l.pack ++ l.emitIfaceList, none)
    else ([], none)

structure DevInfo where
  busid : List UInt8
  busnum : UInt32
  devnum : UInt32
  speed : UInt32
  vid : UInt16
  pid : UInt16
  bcdDevice : UInt16
  dclass : UInt8
  dsub : UInt8
  dproto : UInt8
  nCfg : UInt8
  nIfaces : UInt8
  iclass : List UInt8
  isub : List UInt8
  iproto : List UInt8
  deriving DecidableEq, Repr

/-- The room of `iclass`, `isub` and `iproto`. -/
def ifaceCap : Nat := 16

def parseDevinfo (dev : List UInt8) : DevInfo where
  busid := (dev.drop 256).take 31 ++ [0]
  busnum := getBe32 (dev.drop 288)
  devnum := getBe32 (dev.drop 292)
  speed := getBe32 (dev.drop 296)
  vid := getBe16 (dev.drop 300)
  pid := getBe16 (dev.drop 302)
  bcdDevice := getBe16 (dev.drop 304)
  dclass := byteAt dev 306
  dsub := byteAt dev 307
  dproto := byteAt dev 308
  nCfg := byteAt dev 310
  nIfaces := byteAt dev 311
  iclass := List.replicate ifaceCap 0
  isub := List.replicate ifaceCap 0
  iproto := List.replicate ifaceCap 0

/-- The request of `usbip_client_devlist`. -/
def devlistReq : List UInt8 := be16 usbipProtoVersion ++ be16 usbipOpReqDevlist ++ be32 0

/-- The inner loop of `usbip_client_devlist`: the tuples from the `j`th on. -/
def readIfaces : Nat → Nat → DevInfo → List UInt8 → Option (DevInfo × List UInt8)
  | 0, _, info, s => some (info, s)
  | n + 1, j, info, s => do
    let (ie, s) ← readn usbipIfaceTupleLen s
    readIfaces n (j + 1)
      (if j < ifaceCap then
        { info with
          iclass := info.iclass.set j (byteAt ie 0)
          isub := info.isub.set j (byteAt ie 1)
          iproto := info.iproto.set j (byteAt ie 2) }
      else info) s

/-- One device: its record, and as many tuples as the record says. -/
def readDev (s : List UInt8) : Option (DevInfo × List UInt8) := do
  let (dev, s) ← readn usbipDevLen s
  readIfaces (parseDevinfo dev).nIfaces.toNat 0 (parseDevinfo dev) s

/-- The outer loop of `usbip_client_devlist`, with `got` the records kept. -/
def readDevs (max : Nat) : Nat → List DevInfo → List UInt8 → Option (List DevInfo × List UInt8)
  | 0, got, s => some (got, s)
  | n + 1, got, s => do
    let (info, s) ← readDev s
    readDevs max n (if got.length < max then got ++ [info] else got) s

/-- `usbip_client_devlist`, after the request: the records in `list`, and what is left unread;
`none` for `USB_ERROR_IO`. -/
def clientDevlist (max : Nat) (s : List UInt8) : Option (List DevInfo × List UInt8) := do
  let (rep, s) ← readn usbipOpHdrLen s
  if getBe32 (rep.drop 4) ≠ usbipOpStatusOk then none
  else
    let (cnt, s) ← readn 4 s
    readDevs max (int32 (getBe32 cnt)).toNat [] s

/-! What a client should read. -/

namespace Listed

/-- The offsets of the descriptors in the first `len` bytes, each where the one before it ends. -/
def descOffs (buf : List UInt8) (len : Nat) : Nat → Nat → List Nat
  | 0, _ => []
  | fuel + 1, off =>
    if off + 2 ≤ len then
      off :: descOffs buf len fuel (off + if byteAt buf off ≠ 0 then (byteAt buf off).toNat else 1)
    else []

/-- There is an interface descriptor with alternate setting 0. -/
def altZero (buf : List UInt8) (off : Nat) : Bool :=
  byteAt buf (off + 1) = usbDtInterface ∧ byteAt buf (off + 3) = 0

/-- Its class, subclass and protocol. -/
def triple (buf : List UInt8) (off : Nat) : UInt8 × UInt8 × UInt8 :=
  (byteAt buf (off + 5), byteAt buf (off + 6), byteAt buf (off + 7))

/-- The interfaces of the configuration. -/
def interfaces (l : Listed) : List (UInt8 × UInt8 × UInt8) :=
  ((descOffs l.buf l.dev.descr.length l.dev.descr.length 0).filter (altZero l.buf)).map
    (triple l.buf)

/-- The record of a device, with these triples in its tables of interfaces. -/
def infoWith (l : Listed) (triples : List (UInt8 × UInt8 × UInt8)) : DevInfo where
  busid := l.wireBusid.takeD 32 0
  busnum := l.wireBusnum
  devnum := l.wireDevnum
  speed := l.wireSpeed
  vid := l.dev.header.vid
  pid := l.dev.header.pid
  bcdDevice := l.dev.header.bcdDevice
  dclass := l.dev.header.devClass
  dsub := l.dev.header.devSub
  dproto := l.dev.header.devProto
  nCfg := 1
  nIfaces := l.dev.nIfnums.toUInt8
  iclass := (triples.map fun t => t.1).takeD ifaceCap 0
  isub := (triples.map fun t => t.2.1).takeD ifaceCap 0
  iproto := (triples.map fun t => t.2.2).takeD ifaceCap 0

/-- What a client should know of a device: its own data, and that of as many of its interfaces as
there is room for. -/
def info (l : Listed) : DevInfo := l.infoWith l.interfaces

/-- The four bytes of an interface. -/
def tuple (t : UInt8 × UInt8 × UInt8) : List UInt8 := [t.1, t.2.1, t.2.2, 0]

theorem emitFrom_eq (buf : List UInt8) (len fuel off : Nat) :
    emitFrom buf len fuel off =
      (((descOffs buf len fuel off).filter (altZero buf)).map (triple buf)).flatMap tuple := by
  induction fuel generalizing off with
  | zero => rfl
  | succ fuel ih =>
    rw [emitFrom, descOffs]
    split
    · rw [ih]
      by_cases h : byteAt buf (off + 1) = usbDtInterface ∧ byteAt buf (off + 3) = 0
      · rw [if_pos h, List.filter_cons_of_pos (show altZero buf off = true from decide_eq_true h)]
        rfl
      · have hnot : ¬altZero buf off = true := fun h' => h (of_decide_eq_true h')
        rw [if_neg h, List.filter_cons_of_neg hnot]
        rfl
    · rfl

theorem emitIfaceList_eq (l : Listed) : l.emitIfaceList = l.interfaces.flatMap tuple :=
  emitFrom_eq ..

/-- Each step of the walk leaves less, so that `len` steps are enough. -/
theorem descOffs_fuel {buf : List UInt8} {len fuel off : Nat} (h : len ≤ fuel + off) (more : Nat) :
    descOffs buf len (fuel + more) off = descOffs buf len fuel off := by
  induction fuel generalizing off with
  | zero =>
    cases more with
    | zero => rfl
    | succ more =>
      rw [Nat.zero_add, descOffs]
      exact if_neg (by omega)
  | succ fuel ih =>
    rw [Nat.add_right_comm, descOffs, descOffs]
    split
    · rw [ih]
      split
      · rename_i hne
        have : (byteAt buf off).toNat ≠ 0 := fun h0 => hne (UInt8.toNat_inj.mp h0)
        omega
      · omega
    · rfl

theorem wireBusid_length (l : Listed) : l.wireBusid.length ≤ 31 := by
  rw [wireBusid]
  split
  · decide
  · exact Nat.le_of_lt_succ l.busid.short

/-- The record from `busnum` on. -/
def tail (l : Listed) : List UInt8 :=
  be32 l.wireBusnum ++ (be32 l.wireDevnum ++ (be32 l.wireSpeed ++ (be16 l.dev.header.vid ++
    (be16 l.dev.header.pid ++ (be16 l.dev.header.bcdDevice ++
    [l.dev.header.devClass, l.dev.header.devSub, l.dev.header.devProto, 1, 1,
      l.dev.nIfnums.toUInt8])))))

theorem path_length (l : Listed) : l.path.length = 256 := List.takeD_length ..

theorem pack_eq (l : Listed) : l.pack = l.path ++ (l.wireBusid.takeD 32 0 ++ l.tail) := by
  simp only [pack, tail, List.append_assoc]
  rfl

theorem tail_length (l : Listed) : l.tail.length = 24 := rfl

theorem pack_length (l : Listed) : l.pack.length = usbipDevLen := by
  rw [pack_eq, List.length_append, List.length_append, path_length, List.takeD_length, tail_length]
  rfl

theorem drop_pack_busid (l : Listed) : l.pack.drop 256 = l.wireBusid.takeD 32 0 ++ l.tail := by
  rw [pack_eq]
  exact List.drop_left' l.path_length

theorem drop_pack_tail (l : Listed) (k : Nat) : l.pack.drop (288 + k) = l.tail.drop k := by
  rw [show 288 + k = 256 + (32 + k) from by omega, ← List.drop_drop, drop_pack_busid,
    ← List.drop_drop, List.drop_left' (List.takeD_length ..)]

theorem byteAt_eq_drop (s : List UInt8) (i : Nat) : byteAt s i = byteAt (s.drop i) 0 := by
  simp [byteAt]

theorem byteAt_pack_tail (l : Listed) (k : Nat) : byteAt l.pack (288 + k) = byteAt l.tail k := by
  rw [byteAt_eq_drop, drop_pack_tail, ← byteAt_eq_drop]

theorem parse_pack (l : Listed) : parseDevinfo l.pack = l.infoWith [] := by
  have hbusid : ((l.pack.drop 256).take 31) ++ [0] = l.wireBusid.takeD 32 0 := by
    have hlen := l.wireBusid_length
    rw [drop_pack_busid, takeD_of_length_le 0 (Nat.le_succ_of_le hlen),
      show 32 - l.wireBusid.length = 31 - l.wireBusid.length + 1 by omega, List.replicate_succ',
      ← List.append_assoc, List.append_assoc _ [0]]
    rw [List.take_left' (by rw [List.length_append, List.length_replicate]; omega)]
  have hword : ∀ k (w : UInt32) (rest : List UInt8), l.tail.drop k = be32 w ++ rest →
      getBe32 (l.pack.drop (288 + k)) = w := fun k w rest h => by
    rw [drop_pack_tail, h, getBe32_be32]
  have hhalf : ∀ k (w : UInt16) (rest : List UInt8), l.tail.drop k = be16 w ++ rest →
      getBe16 (l.pack.drop (288 + k)) = w := fun k w rest h => by
    rw [drop_pack_tail, h, getBe16_be16]
  have hbyte := l.byteAt_pack_tail
  rw [parseDevinfo, infoWith, hbusid, hword 0 _ _ rfl, hword 4 _ _ rfl, hword 8 _ _ rfl,
    hhalf 12 _ _ rfl, hhalf 14 _ _ rfl, hhalf 16 _ _ rfl, hbyte 18, hbyte 19, hbyte 20, hbyte 22,
    hbyte 23]
  rfl

theorem infoWith_nIfaces (l : Listed) (triples : List (UInt8 × UInt8 × UInt8)) :
    (l.infoWith triples).nIfaces = l.dev.nIfnums.toUInt8 := rfl

theorem infoWith_concat (l : Listed) (triples : List (UInt8 × UInt8 × UInt8))
    (t : UInt8 × UInt8 × UInt8) :
    l.infoWith (triples ++ [t]) =
      if triples.length < ifaceCap then
        { l.infoWith triples with
          iclass := (l.infoWith triples).iclass.set triples.length t.1
          isub := (l.infoWith triples).isub.set triples.length t.2.1
          iproto := (l.infoWith triples).iproto.set triples.length t.2.2 }
      else l.infoWith triples := by
  rw [infoWith, infoWith, List.map_append, List.map_append, List.map_append, List.map_singleton,
    List.map_singleton, List.map_singleton, takeD_concat, takeD_concat, takeD_concat,
    List.length_map, List.length_map, List.length_map]
  by_cases h : triples.length < ifaceCap
  · rw [if_pos h, if_pos h, if_pos h, if_pos h]
  · rw [if_neg h, if_neg h, if_neg h, if_neg h]

theorem readIfaces_flatMap (l : Listed) (done triples : List (UInt8 × UInt8 × UInt8))
    (s : List UInt8) :
    readIfaces triples.length done.length (l.infoWith done) (triples.flatMap tuple ++ s) =
      some (l.infoWith (done ++ triples), s) := by
  induction triples generalizing done with
  | nil => rw [List.append_nil]; rfl
  | cons t triples ih =>
    have hread : readn usbipIfaceTupleLen ((t :: triples).flatMap tuple ++ s) =
        some (tuple t, triples.flatMap tuple ++ s) := by
      rw [List.flatMap_cons, List.append_assoc]
      exact readn_append (tuple t) _
    rw [List.length_cons, readIfaces, hread, Option.bind_eq_bind, Option.bind_some]
    have := ih (done ++ [t])
    rw [List.append_assoc, List.length_append, infoWith_concat] at this
    exact this

/-- What the server sends for a device. -/
def wire (l : Listed) : List UInt8 := l.pack ++ l.interfaces.flatMap tuple

/-- The interfaces are as many as the record says. -/
def Counted (l : Listed) : Prop := l.interfaces.length = l.dev.nIfnums % 256

theorem readDev_wire (l : Listed) (h : l.Counted) (s : List UInt8) :
    readDev (l.wire ++ s) = some (l.info, s) := by
  have hread : readn usbipDevLen (l.wire ++ s) =
      some (l.pack, l.interfaces.flatMap tuple ++ s) := by
    rw [wire, List.append_assoc, ← l.pack_length]
    exact readn_append l.pack _
  have hn : (l.infoWith []).nIfaces.toNat = l.interfaces.length := by
    rw [infoWith_nIfaces, h]
    exact UInt8.toNat_ofNat'
  rw [readDev, hread, Option.bind_eq_bind, Option.bind_some]
  dsimp only
  rw [parse_pack, hn]
  exact l.readIfaces_flatMap [] l.interfaces s

end Listed

open Listed

theorem readDevs_wire (max : Nat) {devs : List Listed} (h : ∀ l ∈ devs, l.Counted)
    (got : List DevInfo) (hgot : got.length ≤ max) (s : List UInt8) :
    readDevs max devs.length got (devs.flatMap wire ++ s) =
      some ((got ++ devs.map info).take max, s) := by
  induction devs generalizing got with
  | nil =>
    rw [List.map_nil, List.append_nil, List.take_of_length_le hgot]
    rfl
  | cons l devs ih =>
    obtain ⟨hl, hdevs⟩ := List.forall_mem_cons.mp h
    rw [List.flatMap_cons, List.append_assoc, List.length_cons, readDevs, readDev_wire l hl,
      Option.bind_eq_bind, Option.bind_some]
    dsimp only
    by_cases hroom : got.length < max
    · rw [if_pos hroom, ih hdevs _ (by rw [List.length_append]; exact hroom), List.append_assoc]
      rfl
    · have hfull : got.length = max := by omega
      rw [if_neg hroom, ih hdevs got hgot, List.take_left' hfull, List.take_left' hfull]

/-- The client reads one record for each device, in order and with the device's own data, and
nothing is left over. -/
def Lists (devs : List Listed) : Prop :=
  ∀ max, clientDevlist max (handshake devs devlistReq).1 = some ((devs.map info).take max, [])

/-- After the two headers, the client reads what the server sends for each device. -/
theorem clientDevlist_handshake (max : Nat) {devs : List Listed} (h : devs.length < 2 ^ 31) :
    clientDevlist max (handshake devs devlistReq).1 =
      readDevs max devs.length [] (devs.flatMap wire) := by
  have hout : (handshake devs devlistReq).1 =
      writeOpHdr usbipOpRepDevlist usbipOpStatusOk ++ (be32 devs.length.toUInt32 ++
        devs.flatMap wire) := by
    have hwire : (fun l : Listed => l.pack ++ l.emitIfaceList) = wire := by
      funext l
      rw [wire, emitIfaceList_eq]
    rw [← hwire, ← List.append_assoc]
    rfl
  have hcount : (int32 devs.length.toUInt32).toNat = devs.length := by
    have hnat : devs.length.toUInt32.toNat = devs.length :=
      UInt32.toNat_ofNat_of_lt' (Nat.lt_trans h (by decide))
    rw [int32_eq, hnat, if_pos h, Int.toNat_natCast]
  have hhdr := readn_append (writeOpHdr usbipOpRepDevlist usbipOpStatusOk)
    (be32 devs.length.toUInt32 ++ devs.flatMap wire)
  have hcnt := readn_append (be32 devs.length.toUInt32) (devs.flatMap wire)
  rw [clientDevlist, hout, show usbipOpHdrLen =
    (writeOpHdr usbipOpRepDevlist usbipOpStatusOk).length from rfl, hhdr, Option.bind_eq_bind,
    Option.bind_some]
  dsimp only
  rw [if_neg (by decide), show (4 : Nat) = (be32 devs.length.toUInt32).length from rfl, hcnt,
    Option.bind_some]
  dsimp only
  rw [← List.append_nil (be32 _), getBe32_be32, hcount]

theorem lists_of_counted {devs : List Listed} (hlen : devs.length < 2 ^ 31)
    (h : ∀ l ∈ devs, l.Counted) : Lists devs := by
  intro max
  rw [clientDevlist_handshake max hlen]
  have := readDevs_wire max h [] (Nat.zero_le _) []
  rwa [List.append_nil] at this

end Usbip.Listen
