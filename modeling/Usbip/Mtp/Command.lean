import Usbip.Classes.Control
import Usbip.Mtp.World

/-! The commands of the media-transfer class.  `plan` is the decision that `dispatch` takes on the
state and the command alone, and `perform` is what follows; `planRx` and `performRx` are the same
for the end of a data phase. -/

namespace Usbip.Mtp

open Lib Control
open Device (u16le)

/-- Parameter `i` of a command, 0 where the command has none. -/
def par (p : List UInt32) (i : Nat) : UInt32 := p.getD i 0

/-- `(uint64_t)p[i] | ((uint64_t)p[i + 1] << 32)`. -/
def par64 (p : List UInt32) (i : Nat) : UInt64 :=
  (par p i).toUInt64 ||| ((par p (i + 1)).toUInt64 <<< 32)

/-- `(long)` of a 64-bit word, where `long` has 64 bits.  Where it has 32, as on Windows, an offset
loses its upper word here. -/
def toLong (v : UInt64) : Int := toInt64 v.toNat

/-- What a command comes to. -/
inductive Outcome
  | answer (rc : UInt16) (values : List UInt32)
  | dataset (payload : List UInt8)
  | storageInfo (si : Nat) (id : UInt32)
  /-- the session is opened or closed, and the answer is OK -/
  | setSession (id : UInt32)
  /-- bytes of an object, and their count in the response if it is wanted -/
  | read (o : Obj) (off want : Int) (counted : Bool)
  | remove (o : Obj) (handle : UInt32)
  | beginRx
  /-- a rename of an object within its store -/
  | rename (o : Obj) (neu : CStr)
  | moveAcross (o : Obj) (dsi : Nat) (dest : CStr)
  | copy (o : Obj) (dsi : Nat) (dest : CStr)
  | truncate (o : Obj) (size : UInt64)
  /-- a loop that does not end -/
  | hang
  deriving DecidableEq, Repr

/-- `require_obj`. -/
def needObj (objs : List Obj) (handle : UInt32) (needFile : Bool) (go : Obj → Outcome) : Outcome :=
  match objByHandle objs handle with
  | none => .answer rcInvalidObjectHandle []
  | some o => if needFile && o.isDir then .answer rcInvalidObjectHandle [] else go o

/-- `require_writable`. -/
def needWritable (st : MtpState) (go : Outcome) : Outcome :=
  if st.readOnly then .answer rcStoreReadOnly [] else go

/-- The object and the directory that `MoveObject` and `CopyObject` name. -/
def needTarget (st : MtpState) (p : List UInt32) (go : Obj → Nat → CStr → Outcome) : Outcome :=
  needObj st.objs (par p 0) false fun o =>
    match target st.nStores st.objs (par p 1) (par p 2) with
    | none => .answer rcInvalidParent []
    | some (dsi, dest) => go o dsi dest

def ofDataset : Option (List UInt8) → Outcome
  | some payload => .dataset payload
  | none => .hang

/-- The text of a device property. -/
def deviceProp (st : MtpState) (pc : UInt32) : Option CStr :=
  if pc = dpcFriendlyName.toUInt32 then some st.identity.friendly
  else if pc = dpcSyncPartner.toUInt32 then some st.identity.syncPartner
  else none

/-- The switch of `dispatch`. -/
def plan (dateText : UInt32 → CStr) (st : MtpState) (code : UInt16) (p : List UInt32) : Outcome :=
  if code = opGetDeviceInfo then .dataset (buildDeviceInfo st.identity)
  else if code = opOpenSession then
    if st.session ≠ 0 then .answer rcSessionAlreadyOpen [st.session]
    else if par p 0 = 0 then .answer rcInvalidParameter []
    else .setSession (par p 0)
  else if code = opCloseSession then .setSession 0
  else if code = opGetStorageIds then
    .dataset (u32le (UInt32.ofNat st.nStores) ++
      (List.range st.nStores).flatMap fun si => u32le (storageId si))
  else if code = opGetStorageInfo then
    match siOf st.nStores (par p 0) with
    | none => .answer rcInvalidStorageId []
    | some si => .storageInfo si (par p 0)
  else if code = opGetNumObjects then
    .answer rcOk [countHandles st.objs (par p 0) (par p 1) (par p 2)]
  else if code = opGetObjectHandles then
    .dataset (listHandles st.objs (par p 0) (par p 1) (par p 2))
  else if code = opGetObjectInfo then
    needObj st.objs (par p 0) false fun o => .dataset (buildObjectInfo dateText o)
  else if code = opGetObject then
    needObj st.objs (par p 0) true fun o => .read o 0 (-1) false
  else if code = opGetPartialObject then
    needObj st.objs (par p 0) true fun o =>
      .read o (par p 1).toNat (if par p 2 = all then -1 else (par p 2).toNat) true
  else if code = opGetPartialObject64 then
    needObj st.objs (par p 0) true fun o => .read o (toLong (par64 p 1)) (par p 3).toNat true
  else if code = opDeleteObject then
    needWritable st <| needObj st.objs (par p 0) false fun o => .remove o (par p 0)
  else if code = opSendObjectInfo then needWritable st .beginRx
  else if code = opSendObject then
    needWritable st <| if st.sendTarget = 0 then .answer rcNoValidObjectInfo [] else .beginRx
  else if code = opMoveObject then
    needWritable st <| needTarget st p fun o dsi dest =>
      if dsi = o.si then .rename o (pathJoin 4400 dest o.name) else .moveAcross o dsi dest
  else if code = opCopyObject then needWritable st <| needTarget st p .copy
  else if code = opSetObjectPropValue then needWritable st .beginRx
  else if code = opBeginEditObject ∨ code = opEndEditObject then
    .answer (if (objByHandle st.objs (par p 0)).isSome then rcOk else rcInvalidObjectHandle) []
  else if code = opSendPartialObject then
    needWritable st <| needObj st.objs (par p 0) true fun _ => .beginRx
  else if code = opTruncateObject then
    needWritable st <| needObj st.objs (par p 0) true fun o => .truncate o (par64 p 1)
  else if code = opGetDevicePropDesc then
    match deviceProp st (par p 0) with
    | none => .answer rcDevicepropNotSupported []
    | some cur =>
      .dataset (u16le (par p 0).toUInt16 ++ u16le tStr ++ [1] ++ bstr [] ++ bstr cur ++ [0])
  else if code = opGetDevicePropValue then
    match deviceProp st (par p 0) with
    | none => .answer rcDevicepropNotSupported []
    | some cur => .dataset (bstr cur)
  else if code = opSetDevicePropValue then .beginRx
  else if code = opGetObjectPropsSupported then .dataset (barr16 propList)
  else if code = opGetObjectPropDesc then
    if propList.any fun pc => pc.toUInt32 = par p 0 then
      .dataset (buildPropDesc (par p 0).toUInt16)
    else .answer rcInvalidObjectPropCode []
  else if code = opGetObjectPropValue then
    needObj st.objs (par p 0) false fun o =>
      match buildPropValue dateText st.readOnly o (par p 1).toUInt16 with
      | none => .answer rcObjectPropNotSupported []
      | some value => .dataset value
  else if code = opGetObjectPropList then
    ofDataset (buildPropList dateText st.readOnly st.objs (par p 0) (par p 1) (par p 2) (par p 4))
  else if code = opGetObjectReferences then .dataset (u32le 0)
  else .answer rcOperationNotSupported []

section
variable {β : Type} (B : Backend β)

/-- What `disk_usage` and `description` say of a store, where the backend has them. -/
def diskUsage (w : World β) (si : Nat) : (UInt64 × UInt64) × World β :=
  if B.hasDiskUsage then w.ask B (.diskUsage si) else ((0, 0), w)

def description (w : World β) (si : Nat) : Option CStr × World β :=
  if B.hasDescription then w.ask B (.description si) else (none, w)

/-- `build_storage_info` on a store that exists. -/
def storageInfo (w : World β) (si : Nat) (id : UInt32) : List UInt8 × World β :=
  let usage := diskUsage B w si
  let desc := description B usage.2 si
  let text := desc.1.getD (ascii "USB over IP")
  (buildStorageInfo desc.2.st.readOnly id usage.1.1 usage.1.2 text, desc.2)

/-- A rename in the backend, which the table follows. -/
def renameObj (w : World β) (txid : UInt32) (o : Obj) (neu : CStr) : World β :=
  let answer := w.ask B (.rename o.si o.path neu)
  let rc : Int := answer.1
  let w := answer.2
  if rc = 0 then
    let w := w.setSt { w.st with objs := retagPaths w.st.objs o.si o.path neu }
    (rescan B w).respond rcOk txid []
  else w.respond rcGeneralError txid []

/-- What `dispatch` does for a command that comes to an outcome. -/
def perform (w : World β) (code : UInt16) (txid : UInt32) (p : List UInt32) : Outcome → World β
  | .answer rc values => w.respond rc txid values
  | .dataset payload => w.dataOk code txid payload
  | .storageInfo si id =>
    let (payload, w) := storageInfo B w si id
    w.dataOk code txid payload
  | .setSession id => (w.setSt { w.st with session := id }).respond rcOk txid []
  | .read o off want counted =>
    let (r, w) := readObject B w o off want
    (w.sendData code txid r.data r.rc).respond rcOk txid
      (if counted then [UInt32.ofInt r.rc] else [])
  | .remove o handle =>
    let answer := w.ask B (.remove o.si o.path)
    let rc : Int := answer.1
    let w := answer.2
    if rc = 0 then ((rescan B w).respond rcOk txid []).sendEvent evObjectRemoved handle
    else w.respond rcGeneralError txid []
  | .beginRx =>
    w.setSt { w.st with
      rxActive := true, rxCode := code, rxTxid := txid, rxP := p, rxBuf := [], rxNeed := -1 }
  | .rename o neu => renameObj B w txid o neu
  | .moveAcross o dsi dest =>
    let w := copyTree B dsi (w.st.objs.length + 1) w o dest o.name
    (rescan B (w.tell B (.remove o.si o.path))).respond rcOk txid []
  | .copy o dsi dest =>
    let w := rescan B (copyTree B dsi (w.st.objs.length + 1) w o dest o.name)
    let handle :=
      match objByPath w.st.objs dsi (pathJoin 8192 dest o.name) with
      | some no => if no.alive then no.handle else 0
      | none => 0
    w.respond rcOk txid [handle]
  | .truncate o size =>
    if B.hasTruncate then
      let answer := w.ask B (.truncate o.si o.path size)
      let rc : Int := answer.1
      let w := answer.2
      if rc = 0 then (rescan B w).respond rcOk txid []
      else w.respond rcGeneralError txid []
    else w.fail
  | .hang => w.fail

/-- The parameters in a chunk. -/
def paramsOf (chunk : List UInt8) : List UInt32 :=
  (List.range (min 5 ((chunk.length - 12) / 4))).map fun i => getLe32 (chunk.drop (12 + 4 * i))

/-- `dispatch`. -/
def dispatch (w : World β) (chunk : List UInt8) : World β :=
  if chunk.length < 12 then w
  else
    let code := getLe16 (chunk.drop 6)
    let txid := getLe32 (chunk.drop 8)
    if code ≠ opGetDeviceInfo ∧ code ≠ opOpenSession ∧ w.st.session = 0 then
      w.respond rcSessionNotOpen txid []
    else perform B w code txid (paramsOf chunk) (plan B.dateText w.st code (paramsOf chunk))

/-! ### The end of a data phase -/

/-- What a data phase comes to. -/
inductive RxOutcome
  | answer (rc : UInt16)
  /-- an object is made at a path -/
  | makeObject (isDir : Bool) (si : Nat) (full : CStr)
  /-- the file of `SendObjectInfo` gets its contents -/
  | store (o : Obj) (handle : UInt32)
  | setDeviceProp (text : CStr)
  | rename (o : Obj) (neu : CStr)
  | pwrite (o : Obj) (off : Int)
  /-- no operation has such a data phase -/
  | none
  deriving DecidableEq, Repr

/-- `require_obj`, at the end of a data phase. -/
def needObjRx (objs : List Obj) (handle : UInt32) (needFile : Bool) (go : Obj → RxOutcome) :
    RxOutcome :=
  match objByHandle objs handle with
  | .none => .answer rcInvalidObjectHandle
  | some o => if needFile && o.isDir then .answer rcInvalidObjectHandle else go o

/-- The path of the directory that an object is in, as the table has it. -/
def parentDir (objs : List Obj) (o : Obj) : CStr :=
  if o.parent = 0 then []
  else
    match objByHandle objs o.parent with
    | some dir => dir.path
    | .none => []

/-- `recv_object_info` up to the backend. -/
def planObjectInfo (st : MtpState) (payload : List UInt8) : RxOutcome :=
  if payload.length < 53 then .answer rcGeneralError
  else
    let name := ptpStrAscii (payload.drop 52) 256
    match target st.nStores st.objs (par st.rxP 0) (par st.rxP 1) with
    | .none => .answer rcInvalidParent
    | some (si, dir) =>
      if name = [] then .answer rcInvalidParent
      else .makeObject (getLe16 (payload.drop 4) = fmtAssociation) si (pathJoin 4400 dir name)

/-- `recv_set_object_prop` up to the backend. -/
def planSetProp (st : MtpState) (payload : List UInt8) : RxOutcome :=
  needObjRx st.objs (par st.rxP 0) false fun o =>
    let pc := par st.rxP 1
    let name := ptpStrAscii payload 256
    if pc ≠ opcFilename.toUInt32 ∧ pc ≠ opcName.toUInt32 then .answer rcObjectPropNotSupported
    else if name = [] then .answer rcGeneralError
    else .rename o (pathJoin 4400 (parentDir st.objs o) name)

/-- The switch of `complete_rx`. -/
def planRx (st : MtpState) (payload : List UInt8) : RxOutcome :=
  if st.rxCode = opSendObjectInfo then planObjectInfo st payload
  else if st.rxCode = opSendObject then
    match objByHandle st.objs st.sendTarget with
    | some o => .store o st.sendTarget
    | .none => .answer rcNoValidObjectInfo
  else if st.rxCode = opSetDevicePropValue then .setDeviceProp (ptpStrAscii payload 64)
  else if st.rxCode = opSetObjectPropValue then planSetProp st payload
  else if st.rxCode = opSendPartialObject then
    needObjRx st.objs (par st.rxP 0) true fun o => .pwrite o (toLong (par64 st.rxP 1))
  else .none

/-- The friendly name or the partner after a `SetDevicePropValue`. -/
def Identity.setProp (id : Identity) (pc : UInt32) (text : CStr) : Identity :=
  if pc = dpcFriendlyName.toUInt32 then { id with friendly := snprintf 64 text }
  else if pc = dpcSyncPartner.toUInt32 then { id with syncPartner := snprintf 64 text }
  else id

/-- What `recv_object_info` answers, with the handle of the new object. -/
def answerMade (w : World β) (si : Nat) (handle : UInt32) : World β :=
  let w := w.respond rcOk w.st.rxTxid [storageId si, par w.st.rxP 1, handle]
  if handle ≠ 0 then w.sendEvent evObjectAdded handle else w

/-- The handle of the object at a path, 0 where there is none. -/
def handleAt (objs : List Obj) (si : Nat) (full : CStr) : UInt32 :=
  match objByPath objs si full with
  | some o => if o.alive then o.handle else 0
  | .none => 0

def performRx (w : World β) (payload : List UInt8) : RxOutcome → World β
  | .answer rc => w.respond rc w.st.rxTxid []
  | .makeObject isDir si full =>
    if isDir then
      let w := w.tell B (.makeDir si full)
      let w := rescan B (w.setSt { w.st with sendTarget := 0 })
      answerMade w si (handleAt w.st.objs si full)
    else
      let w := rescan B (w.tell B (.write si full [] 0))
      let handle := handleAt w.st.objs si full
      answerMade (w.setSt { w.st with sendTarget := handle }) si handle
  | .store o handle =>
    let w := rescan B (w.tell B (.write o.si o.path payload payload.length))
    (w.respond rcOk w.st.rxTxid []).sendEvent evObjectAdded handle
  | .setDeviceProp text =>
    let w := w.setSt { w.st with identity := w.st.identity.setProp (par w.st.rxP 0) text }
    w.respond rcOk w.st.rxTxid []
  | .rename o neu => renameObj B w w.st.rxTxid o neu
  | .pwrite o off =>
    if B.hasPwrite then
      let w := rescan B (w.tell B (.pwrite o.si o.path off payload payload.length))
      w.respond rcOk w.st.rxTxid [UInt32.ofNat payload.length]
    else w.fail
  | .none => w

/-- The payload of a container in the buffer. -/
def rxPayload (st : MtpState) : List UInt8 :=
  (st.rxBuf.drop 12).take (max 0 (toInt32 (st.rxNeed - 12))).toNat

/-- `complete_rx`. `SendObject` takes the target whatever comes of it. -/
def completeRx (w : World β) : World β :=
  let payload := rxPayload w.st
  let outcome := planRx w.st payload
  let w := if w.st.rxCode = opSendObject then w.setSt { w.st with sendTarget := 0 } else w
  performRx B w payload outcome

/-- A chunk of a data phase joins the buffer, which tells the length of the container from its
twelfth byte on. -/
def MtpState.fill (st : MtpState) (chunk : List UInt8) : MtpState :=
  let rxBuf := st.rxBuf ++ chunk
  let rxNeed :=
    if st.rxNeed < 0 ∧ 12 ≤ rxBuf.length then ((getLe32 rxBuf).toNat : Int) else st.rxNeed
  { st with rxBuf, rxNeed }

/-- The buffer holds the container. -/
def MtpState.whole (st : MtpState) : Bool := 0 ≤ st.rxNeed ∧ st.rxNeed ≤ st.rxBuf.length

/-- The data phase is over. -/
def MtpState.endRx (st : MtpState) : MtpState := { st with rxActive := false }

/-- `mtp_on_out`. -/
def onOut (w : World β) (chunk : List UInt8) : World β :=
  if w.st.rxActive then
    let st := w.st.fill chunk
    if st.whole then
      completeRx B (w.setSt st.endRx)
    else w.setSt st
  else dispatch B w chunk

/-- The part of the state that control requests see. -/
def MtpState.control (st : MtpState) (setup : Setup) : MtpState :=
  let ctl := (Classes.mtpControl ⟨st.session, st.rxActive, st.sendTarget⟩ setup).state
  { st with session := ctl.session, rxActive := ctl.rxActive, sendTarget := ctl.sendTarget }

/-- What reaches the class, and what happens to its backend between two calls. -/
inductive Act (β : Type)
  | out (chunk : List UInt8)
  | control (setup : Setup)
  | outside (disk : β)

def act (w : World β) : Act β → World β
  | .out chunk => onOut B w chunk
  | .control setup => w.setSt (w.st.control setup)
  | .outside disk => { w with disk }

/-- A run ends where it gets stuck. -/
def next (w : World β) (a : Act β) : Option (World β) := if w.stuck then none else some (act B w a)

/-! ### Which way an action goes -/

theorem onOut_of_inactive {w : World β} (h : w.st.rxActive = false) (chunk : List UInt8) :
    onOut B w chunk = dispatch B w chunk := by
  rw [onOut, if_neg (by simp [h])]

theorem onOut_of_whole {w : World β} {chunk : List UInt8} (h : w.st.rxActive = true)
    (hwhole : (w.st.fill chunk).whole = true) :
    onOut B w chunk = completeRx B (w.setSt (w.st.fill chunk).endRx) := by
  rw [onOut, if_pos h]
  exact if_pos hwhole

theorem onOut_of_not_whole {w : World β} {chunk : List UInt8} (h : w.st.rxActive = true)
    (hwhole : (w.st.fill chunk).whole = false) : onOut B w chunk = w.setSt (w.st.fill chunk) := by
  rw [onOut, if_pos h]
  exact if_neg (by simp [hwhole])

theorem completeRx_of_ne {w : World β} (h : w.st.rxCode ≠ opSendObject) :
    completeRx B w = performRx B w (rxPayload w.st) (planRx w.st (rxPayload w.st)) := by
  unfold completeRx
  dsimp only
  rw [if_neg h]

theorem dispatch_of_session {w : World β} {chunk : List UInt8} (hlen : 12 ≤ chunk.length)
    (h : w.st.session ≠ 0) :
    dispatch B w chunk = perform B w (getLe16 (chunk.drop 6)) (getLe32 (chunk.drop 8))
      (paramsOf chunk) (plan B.dateText w.st (getLe16 (chunk.drop 6)) (paramsOf chunk)) := by
  rw [dispatch, if_neg (not_lt.mpr hlen)]
  exact if_neg fun hc => h hc.2.2

theorem next_of_not_stuck {w : World β} (h : w.stuck = false) (a : Act β) :
    next B w a = some (act B w a) := by
  rw [next, if_neg (by simp [h])]

theorem next_some {w w' : World β} {a : Act β} (h : next B w a = some w') :
    w.stuck = false ∧ w' = act B w a := by
  unfold next at h
  split at h
  · cases h
  · next hs => exact ⟨by simpa using hs, (Option.some.inj h).symm⟩

/-! ### The start -/

/-- The part of `mtp_opts` that `mtp_build` reads. -/
structure MtpOpts where
  readOnly : Bool
  name : Option CStr
  manufacturer : Option CStr
  serial : Option CStr
  nStores : Int
  deriving DecidableEq, Repr

/-- `mtp_build`. -/
def MtpOpts.initial (opts : MtpOpts) : MtpState :=
  let model := snprintf 64 (opts.name.getD (ascii "USBIP MTP"))
  { readOnly := opts.readOnly
    nStores := (min 8 (max 1 opts.nStores)).toNat
    identity :=
      { model
        manufacturer := snprintf 64 (opts.manufacturer.getD (ascii "USB over IP"))
        serial := snprintf 40
          (match opts.serial with
            | some serial => if serial.length = 32 then serial else ascii "JW30"
            | .none => ascii "JW30")
        friendly := snprintf 64 model
        syncPartner := [] }
    objs := [], nextHandle := 1, sendTarget := 0, session := 0, rxActive := false, rxCode := 0
    rxTxid := 0, rxP := [], rxBuf := [], rxNeed := 0 }

def build (opts : MtpOpts) (disk : β) : World β := rescan B ⟨opts.initial, disk, [], false⟩

end

end Usbip.Mtp
