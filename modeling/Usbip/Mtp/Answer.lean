import Usbip.Lib.Stream
import Usbip.Mtp.Ends

/-! Commands and their responses, as a host sees them: a command container is answered with one
response of its transaction, behind its data, and nothing else is.  `Phase` follows what the host
sends and what comes back; the class keeps to it where the host sends nothing out of turn. -/

namespace Usbip.Mtp

open Lib Control

/-! ### What a host may expect -/

/-- `CT_COMMAND`. -/
def ctCommand : UInt16 := 1

/-- A command container. -/
def IsCommand (chunk : List UInt8) : Prop :=
  12 ≤ chunk.length ∧ getLe16 (chunk.drop 4) = ctCommand

instance (chunk : List UInt8) : Decidable (IsCommand chunk) :=
  inferInstanceAs (Decidable (_ ∧ _))

/-- The operations that have data from the host. -/
def dataOps : List UInt16 :=
  [opSendObjectInfo, opSendObject, opSetDevicePropValue, opSetObjectPropValue, opSendPartialObject]

/-- A data container with all its bytes. -/
def Whole (data : List UInt8) : Prop := 12 ≤ data.length ∧ (getLe32 data).toNat ≤ data.length

instance (data : List UInt8) : Decidable (Whole data) := inferInstanceAs (Decidable (_ ∧ _))

/-- Between commands, or in the data of a command, with the bytes that have been sent. -/
inductive Phase
  | idle
  | data (txid : UInt32) (held : List UInt8)
  deriving DecidableEq, Repr

/-- The containers that answer a command. -/
def Answers (txid : UInt32) (sent : List (UInt16 × UInt32)) : Prop :=
  sent = [(ctResponse, txid)] ∨ sent = [(ctData, txid), (ctResponse, txid)]

instance (txid : UInt32) (sent : List (UInt16 × UInt32)) : Decidable (Answers txid sent) :=
  inferInstanceAs (Decidable (_ ∨ _))

/-- A command is answered, or its data is waited for. -/
def Phase.command (chunk : List UInt8) (sent : List (UInt16 × UInt32)) : Option Phase :=
  if Answers (getLe32 (chunk.drop 8)) sent then some .idle
  else if sent = [] ∧ getLe16 (chunk.drop 6) ∈ dataOps then
    some (.data (getLe32 (chunk.drop 8)) [])
  else none

/-- The class-specific requests Cancel and Device Reset. -/
def Aborts (setup : Setup) : Prop :=
  setup.reqType = 1 ∧ (setup.bRequest = 0x64 ∨ setup.bRequest = 0x66)

instance (setup : Setup) : Decidable (Aborts setup) := inferInstanceAs (Decidable (_ ∧ _))

/-- What follows an action and the containers that it has brought, with their types and
transactions; `none` where those are not what the host may expect. -/
def Phase.after {β : Type} (ph : Phase) (a : Act β) (sent : List (UInt16 × UInt32)) :
    Option Phase :=
  match a, ph with
  | .out chunk, .idle =>
    if IsCommand chunk then Phase.command chunk sent
    else if sent = [] then some .idle
    else none
  | .out chunk, .data txid held =>
    if held = [] ∧ IsCommand chunk then Phase.command chunk sent
    else if Whole (held ++ chunk) then
      if sent = [(ctResponse, txid)] then some .idle else none
    else if sent = [] then some (.data txid (held ++ chunk))
    else none
  | .control setup, ph =>
    if sent = [] then some (if Aborts setup then .idle else ph) else none
  | .outside _, ph => if sent = [] then some ph else none

/-! ### The class under the eyes of the host -/

/-- What goes to the host over the bulk pipe. -/
def Effect.toHost {β : Type} : Effect β → Option (UInt16 × UInt32)
  | .sent .bulkIn c => some (c.type, c.txid)
  | _ => none

def sentBetween {β : Type} (w w' : World β) : List (UInt16 × UInt32) :=
  (w'.log.drop w.log.length).filterMap Effect.toHost

/-- The class, and where the host is with it, unless it has seen what it may not. -/
structure Session (β : Type) where
  world : World β
  phase : Option Phase

def Session.start {β : Type} (B : Backend β) (opts : MtpOpts) (disk : β) : Session β :=
  ⟨build B opts disk, some .idle⟩

def Session.next {β : Type} (B : Backend β) (s : Session β) (a : Act β) : Option (Session β) :=
  (Mtp.next B s.world a).map fun w' =>
    ⟨w', s.phase.bind fun ph => ph.after a (sentBetween s.world w')⟩

/-- The host has seen nothing that it may not, and is not left without an answer. -/
def Session.Served {β : Type} (s : Session β) : Prop := s.world.stuck = false ∧ s.phase ≠ none

/-! ### Where the class keeps to it -/

/-- What `read_object` has found can go out, or is so negative that no memory can be had for it. -/
def ReadResult.Sendable (r : ReadResult) : Prop :=
  r.rc < -12 ∨ 0 ≤ r.rc ∧ r.rc ≤ r.data.length ∧ r.rc < 2 ^ 31 - 12

instance (r : ReadResult) : Decidable r.Sendable := inferInstanceAs (Decidable (_ ∨ _))

/-- A dataset fits a container, the bytes of an object are there, and so is the callback. -/
def Outcome.Servable {β : Type} (B : Backend β) (w : World β) : Outcome → Prop
  | .dataset payload => payload.length < 2 ^ 31 - 12
  | .read o off want _ => (readObject B w o off want).1.Sendable
  | .truncate .. => B.hasTruncate = true
  | _ => True

instance {β : Type} (B : Backend β) (w : World β) : ∀ o : Outcome, Decidable (o.Servable B w)
  | .dataset payload => inferInstanceAs (Decidable (payload.length < 2 ^ 31 - 12))
  | .read o off want _ => inferInstanceAs (Decidable (readObject B w o off want).1.Sendable)
  | .truncate .. => inferInstanceAs (Decidable (B.hasTruncate = true))
  | .answer .. | .storageInfo .. | .setSession _ | .remove .. | .beginRx | .rename ..
  | .moveAcross .. | .copy .. | .hang => isTrue trivial

def RxOutcome.Servable {β : Type} (B : Backend β) : RxOutcome → Prop
  | .pwrite .. => B.hasPwrite = true
  | _ => True

instance {β : Type} (B : Backend β) : ∀ o : RxOutcome, Decidable (o.Servable B)
  | .pwrite .. => inferInstanceAs (Decidable (B.hasPwrite = true))
  | .answer _ | .makeObject .. | .store .. | .setDeviceProp _ | .rename .. | .none => isTrue trivial

/-- In a data phase the host sends no command, and the data can be taken. -/
def DataInTurn {β : Type} (B : Backend β) (w : World β) (chunk : List UInt8) : Prop :=
  ¬(w.st.rxBuf = [] ∧ IsCommand chunk) ∧ ((w.st.fill chunk).whole = true →
    (planRx (w.st.fill chunk).endRx (rxPayload (w.st.fill chunk).endRx)).Servable B)

/-- Between commands the host sends no other container, and asks for nothing that cannot be served,
of a table that has a handle for every entry. -/
def CommandInTurn {β : Type} (B : Backend β) (w : World β) (chunk : List UInt8) : Prop :=
  12 ≤ chunk.length → IsCommand chunk ∧ w.st.objs.length < 2 ^ 32 ∧
    (getLe16 (chunk.drop 6) ≠ opGetDeviceInfo ∧ getLe16 (chunk.drop 6) ≠ opOpenSession ∧
        w.st.session = 0 ∨
      (plan B.dateText w.st (getLe16 (chunk.drop 6)) (paramsOf chunk)).Servable B w)

/-- What the host may do: there is no Cancel in a data phase either. -/
def Act.InTurn {β : Type} (B : Backend β) (w : World β) : Act β → Prop
  | .out chunk => if w.st.rxActive then DataInTurn B w chunk else CommandInTurn B w chunk
  | .control setup => setup.reqType = 1 ∧ setup.bRequest = 0x64 → w.st.rxActive = false
  | .outside _ => True

instance {β : Type} (B : Backend β) (w : World β) (chunk : List UInt8) :
    Decidable (DataInTurn B w chunk) := inferInstanceAs (Decidable (_ ∧ _))

instance {β : Type} (B : Backend β) (w : World β) (chunk : List UInt8) :
    Decidable (CommandInTurn B w chunk) := inferInstanceAs (Decidable (_ → _))

instance {β : Type} (B : Backend β) (w : World β) : ∀ a : Act β, Decidable (a.InTurn B w)
  | .out chunk => inferInstanceAs
      (Decidable (if w.st.rxActive then DataInTurn B w chunk else CommandInTurn B w chunk))
  | .control _ => inferInstanceAs (Decidable (_ → _))
  | .outside _ => isTrue trivial

/-! ### What goes to the host -/

/-- What goes to the host from one world to another, which go on and stay in the same data phase. -/
structure Says {β : Type} (w w' : World β) (sent : List (UInt16 × UInt32)) : Prop where
  sent : ∃ es, w'.log = w.log ++ es ∧ es.filterMap Effect.toHost = sent
  stuck : w'.stuck = w.stuck
  rxActive : w'.st.rxActive = w.st.rxActive
  rxTxid : w'.st.rxTxid = w.st.rxTxid

section
variable {β : Type} {B : Backend β} {w w' w'' : World β} {l l' : List (UInt16 × UInt32)}

namespace Says

theorem refl (w : World β) : Says w w [] := ⟨⟨[], by simp, rfl⟩, rfl, rfl, rfl⟩

theorem trans (h : Says w w' l) (h' : Says w' w'' l') : Says w w'' (l ++ l') := by
  obtain ⟨es, hes, hl⟩ := h.sent
  obtain ⟨es', hes', hl'⟩ := h'.sent
  refine ⟨⟨es ++ es', by rw [hes', hes, List.append_assoc], ?_⟩, h'.stuck.trans h.stuck,
    h'.rxActive.trans h.rxActive, h'.rxTxid.trans h.rxTxid⟩
  rw [List.filterMap_append, hl, hl']

/-- What sends nothing, and goes on. -/
theorem quiet (h : Extends (fun e => e.toHost = none) w w') (hstuck : w'.stuck = w.stuck) :
    Says w w' [] := by
  obtain ⟨es, hes, hnone⟩ := h.logs.log
  exact ⟨⟨es, hes, List.filterMap_eq_nil_iff.mpr hnone⟩, hstuck, h.same.rxActive, h.same.rxTxid⟩

theorem ask (w : World β) (c : Call) : Says w (w.ask B c).2 [] := .quiet (.ask B rfl) rfl

theorem setSt {st : MtpState} (hrx : st.rxActive = w.st.rxActive) (htxid : st.rxTxid = w.st.rxTxid) :
    Says w (w.setSt st) [] := ⟨⟨[], by simp [World.setSt], rfl⟩, rfl, hrx, htxid⟩

theorem rescan (hB : Shallow B) (w : World β) : Says w (rescan B w) [] :=
  .quiet (.rescan B (fun _ _ _ => rfl) (fun _ _ _ => rfl) rfl) (stuck_rescan hB w)

theorem copyTree (hsane : Sane w.st) (hlen : w.st.objs.length < 2 ^ 32) {o : Obj}
    (ho : o ∈ w.st.objs) (halive : o.alive = true) (dsi : Nat) (dest : CStr) :
    Says w (copyTree B dsi (w.st.objs.length + 1) w o dest o.name) [] :=
  .quiet (.copyTree B (fun _ _ _ _ _ => rfl) (fun _ _ _ _ => rfl) (fun _ _ _ _ _ _ => rfl) ..)
    (copyTree_ends (hsane.descends hlen) dsi rfl ho halive
      (Nat.lt_succ_of_le List.countP_le_length) dest o.name)

theorem sendOne (w : World β) (type code : UInt16) (txid : UInt32) (payload : List UInt8)
    {plen : Int} (h0 : 0 ≤ plen) (hle : plen ≤ payload.length) (hlt : plen < 2 ^ 31 - 12) :
    Says w (w.sendOne .bulkIn type code txid payload plen) [(type, txid)] := by
  rw [World.sendOne, if_neg (by omega), if_neg (by omega)]
  exact ⟨⟨_, rfl, rfl⟩, rfl, rfl, rfl⟩

theorem sendEvent (w : World β) (code : UInt16) (param : UInt32) :
    Says w (w.sendEvent code param) [] := ⟨⟨_, rfl, rfl⟩, rfl, rfl, rfl⟩

theorem respond (w : World β) (rc : UInt16) (txid : UInt32) (values : List UInt32) :
    Says w (w.respond rc txid values) [(ctResponse, txid)] := by
  rw [World.respond_eq]
  exact ⟨⟨_, rfl, rfl⟩, rfl, rfl, rfl⟩

theorem dataOk (w : World β) (code : UInt16) (txid : UInt32) (payload : List UInt8)
    (h : payload.length < 2 ^ 31 - 12) :
    Says w (w.dataOk code txid payload) [(ctData, txid), (ctResponse, txid)] := by
  have hlen : toInt32 payload.length = payload.length := toInt32_of_lt (by omega)
  have hdata := sendOne w ctData code txid payload (by omega) hlen.le (by omega)
  exact hdata.trans (respond _ rcOk txid [])

/-- The scan that follows a change, and the answer. -/
theorem rescanned (hB : Shallow B) (h : Says w w' l) (rc : UInt16) (txid : UInt32)
    (values : List UInt32) :
    Says w ((Mtp.rescan B w').respond rc txid values) (l ++ [(ctResponse, txid)]) := by
  have hscan := (rescan hB w').trans (respond _ rc txid values)
  exact h.trans hscan

/-- What is read goes out before the answer, unless the count is no size at all. -/
theorem read (w : World β) (code : UInt16) (txid : UInt32) {o : Obj} {off want : Int}
    (h : (readObject B w o off want).1.Sendable) (values : List UInt32) :
    ∃ l, Says w (((readObject B w o off want).2.sendData code txid
      (readObject B w o off want).1.data (readObject B w o off want).1.rc).respond
        rcOk txid values) l ∧ Answers txid l := by
  have hread : Says w (readObject B w o off want).2 [] := ask w _
  rcases h with hneg | ⟨h0, hle, hlt⟩
  · rw [World.sendData, World.sendOne, if_pos hneg]
    exact ⟨_, hread.trans (respond _ rcOk txid values), .inl rfl⟩
  · have hdata := sendOne (readObject B w o off want).2 ctData code txid _ h0 hle hlt
    exact ⟨_, hread.trans (hdata.trans (respond _ rcOk txid values)), .inr rfl⟩

theorem renameObj (hB : Shallow B) (w : World β) (txid : UInt32) (o : Obj) (neu : CStr) :
    Says w (renameObj B w txid o neu) [(ctResponse, txid)] := by
  have hask := ask (B := B) w (.rename o.si o.path neu)
  unfold Mtp.renameObj
  dsimp only
  split
  · exact (hask.trans (setSt (by rfl) (by rfl))).rescanned hB rcOk txid []
  · exact hask.trans (respond _ rcGeneralError txid [])

theorem storageInfo (w : World β) (si : Nat) (id : UInt32) :
    Says w (storageInfo B w si id).2 [] := by
  have husage : Says w (diskUsage B w si).2 [] := by
    unfold diskUsage
    cases B.hasDiskUsage with
    | true => exact ask w (.diskUsage si)
    | false => exact refl w
  have hdesc : ∀ w', Says w' (description B w' si).2 [] := by
    intro w'
    unfold description
    cases B.hasDescription with
    | true => exact ask w' (.description si)
    | false => exact refl w'
  exact husage.trans (hdesc _)

end Says

/-! ### Commands and data phases -/

theorem length_bstr_le (s : CStr) : (bstr s).length ≤ 511 := by
  have hpair : ∀ c : UInt8, [c, 0].length = 2 := fun _ => rfl
  have hchars := length_flatMap_const hpair (s.take 254)
  have htake := List.length_take_le 254 s
  have hnul : (Device.u16le 0).length = 2 := rfl
  unfold bstr
  dsimp only
  split
  · decide
  · rw [List.length_append, List.length_cons]
    omega

theorem length_storageInfo_le (w : World β) (si : Nat) (id : UInt32) :
    (storageInfo B w si id).1.length ≤ 1048 := by
  unfold storageInfo buildStorageInfo
  dsimp only
  have htext := length_bstr_le
    ((description B (diskUsage B w si).2 si).1.getD (ascii "USB over IP"))
  have hvolume := length_bstr_le (snprintf 24 (ascii "vol-" ++ hex08 id))
  rw [List.length_append, List.length_append]
  exact Nat.add_le_add (Nat.add_le_add (Nat.le_refl 26) htext) hvolume

/-- An object that a command names, copied. -/
theorem says_copy (hsane : Sane w.st) (hlen : w.st.objs.length < 2 ^ 32) {handle : UInt32} {o : Obj}
    (ho : objByHandle w.st.objs handle = some o) (dsi : Nat) (dest : CStr) :
    Says w (copyTree B dsi (w.st.objs.length + 1) w o dest o.name) [] :=
  .copyTree hsane hlen (objByHandle_some ho).1 (objByHandle_some ho).2.1 dsi dest

/-- A command whose guards are passed is answered. -/
theorem says_perform (hB : Shallow B) (hsane : Sane w.st) (hlen : w.st.objs.length < 2 ^ 32)
    {code : UInt16} {p : List UInt32} {o : Outcome} (hplanned : Planned w.st code p o)
    (hserv : o.Servable B w) (hhang : o ≠ .hang) (hrx : o ≠ .beginRx) (txid : UInt32) :
    ∃ l, Says w (perform B w code txid p o) l ∧ Answers txid l := by
  cases o with
  | answer rc values => exact ⟨_, .respond w rc txid values, .inl rfl⟩
  | dataset payload => exact ⟨_, .dataOk w code txid payload hserv, .inr rfl⟩
  | storageInfo si id =>
    have hfits := length_storageInfo_le (B := B) w si id
    exact ⟨_, (Says.storageInfo w si id).trans
      (.dataOk _ code txid _ (lt_of_le_of_lt hfits (by decide))), .inr rfl⟩
  | setSession id =>
    have hset : Says w (w.setSt { w.st with session := id }) [] := .setSt rfl rfl
    exact ⟨_, hset.trans (.respond _ rcOk txid []), .inl rfl⟩
  | read o off want counted => exact Says.read w code txid hserv _
  | remove o handle =>
    have hask := Says.ask (B := B) w (.remove o.si o.path)
    unfold perform
    dsimp only
    split
    · exact ⟨_, (hask.rescanned hB rcOk txid []).trans (.sendEvent _ evObjectRemoved handle),
        .inl rfl⟩
    · exact ⟨_, hask.trans (.respond _ rcGeneralError txid []), .inl rfl⟩
  | beginRx => exact absurd rfl hrx
  | rename o neu => exact ⟨_, .renameObj hB w txid o neu, .inl rfl⟩
  | moveAcross o dsi dest =>
    have hcopy := says_copy (B := B) hsane hlen hplanned.2.2.1 dsi dest
    exact ⟨_, (hcopy.trans (.ask _ (.remove o.si o.path))).rescanned hB rcOk txid [], .inl rfl⟩
  | copy o dsi dest =>
    have hcopy := says_copy (B := B) hsane hlen hplanned.2.2.1 dsi dest
    exact ⟨_, hcopy.rescanned hB rcOk txid _, .inl rfl⟩
  | truncate o size =>
    have hask := Says.ask (B := B) w (.truncate o.si o.path size)
    have hhas : B.hasTruncate = true := hserv
    unfold perform
    dsimp only
    rw [if_pos hhas]
    split
    · exact ⟨_, hask.rescanned hB rcOk txid [], .inl rfl⟩
    · exact ⟨_, hask.trans (.respond _ rcGeneralError txid []), .inl rfl⟩
  | hang => exact absurd rfl hhang

/-- The answer to the command of a data phase. -/
theorem Says.answered (h : Says w w' l) (rc : UInt16) (values : List UInt32) :
    Says w (w'.respond rc w'.st.rxTxid values) (l ++ [(ctResponse, w.st.rxTxid)]) := by
  rw [h.rxTxid]
  exact h.trans (.respond w' rc w.st.rxTxid values)

theorem Says.made (h : Says w w' l) (si : Nat) (handle : UInt32) :
    Says w (answerMade w' si handle) (l ++ [(ctResponse, w.st.rxTxid)]) := by
  have hok := h.answered rcOk [storageId si, par w'.st.rxP 1, handle]
  unfold answerMade
  dsimp only
  split
  · have hevent := hok.trans (.sendEvent _ evObjectAdded handle)
    rwa [List.append_nil] at hevent
  · exact hok

/-- The end of a data phase answers its command. -/
theorem says_performRx (hB : Shallow B) (w : World β) (payload : List UInt8) {o : RxOutcome}
    (hserv : o.Servable B) (hnone : o ≠ .none) :
    Says w (performRx B w payload o) [(ctResponse, w.st.rxTxid)] := by
  cases o with
  | answer rc => exact .respond w rc _ []
  | makeObject isDir si full =>
    cases isDir with
    | true =>
      have hask := Says.ask (B := B) w (.makeDir si full)
      have hscan := (hask.trans (.setSt (by rfl) (by rfl))).trans (.rescan hB
        ((w.tell B (.makeDir si full)).setSt
          { (w.tell B (.makeDir si full)).st with sendTarget := 0 }))
      exact hscan.made si _
    | false =>
      have hask := Says.ask (B := B) w (.write si full [] 0)
      have hscan := hask.trans (.rescan hB _)
      exact (hscan.trans (.setSt (by rfl) (by rfl))).made si _
  | store o handle =>
    have hask := Says.ask (B := B) w (.write o.si o.path payload payload.length)
    have hscan := hask.trans (.rescan hB _)
    exact (hscan.answered rcOk []).trans (.sendEvent _ evObjectAdded handle)
  | setDeviceProp text =>
    have hset : Says w (w.setSt
      { w.st with identity := w.st.identity.setProp (par w.st.rxP 0) text }) [] := .setSt rfl rfl
    exact hset.answered rcOk []
  | rename o neu => exact .renameObj hB w _ o neu
  | pwrite o off =>
    have hask := Says.ask (B := B) w (.pwrite o.si o.path off payload payload.length)
    have hscan := hask.trans (.rescan hB _)
    have hhas : B.hasPwrite = true := hserv
    unfold performRx
    dsimp only
    rw [if_pos hhas]
    exact hscan.answered rcOk [UInt32.ofNat payload.length]
  | none => exact absurd rfl hnone

end

end Usbip.Mtp
