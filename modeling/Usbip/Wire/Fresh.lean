import Usbip.Wire.Serve

/-! What a dispatched command is made of.  The record of the serve loop keeps what it held where a
command does not overwrite it; only a `CMD_SUBMIT` overwrites all that the dispatcher uses. -/

namespace Usbip.Wire

open Lib

/-- The bytes of the payload that a header announces. -/
def payloadLen (hdr : List UInt8) : Nat :=
  if word hdr usbipHdrDirectionOff = usbOut ∧ 0 < int32 (word hdr usbipCmdLengthOff) then
    (int32 (word hdr usbipCmdLengthOff)).toNat
  else 0

/-- The packet descriptors that a header announces. -/
def isoCount (srv : Served) (hdr : List UInt8) : Nat :=
  if srv.Iso (word hdr usbipHdrEpOff) (word hdr usbipHdrDirectionOff) then
    (int32 (word hdr usbipCmdNumpktsOff)).toNat
  else 0

/-- What a header and the bytes after it carry. -/
def carried (srv : Served) (hdr body : List UInt8) : Used where
  seqnum := word hdr usbipHdrSeqnumOff
  devid := word hdr usbipHdrDevidOff
  direction := word hdr usbipHdrDirectionOff
  ep := word hdr usbipHdrEpOff
  length := int32 (word hdr usbipCmdLengthOff)
  setup := bytesAt hdr usbipCmdSetupOff 8
  data := if payloadLen hdr = 0 then none else some (bytesAt body 0 (payloadLen hdr))
  dataLen := payloadLen hdr
  numberOfPackets := int32 (word hdr usbipCmdNumpktsOff)
  iso :=
    if isoCount srv hdr = 0 then none
    else some (isoDescs (isoCount srv hdr)
      (bytesAt body (payloadLen hdr) (isoCount srv hdr * usbipIsoDescLen)))

/-- The effect of a command, apart from the record that it leaves behind. -/
inductive Effect
  | unlink (seqnum unlinkSeqnum : UInt32)
  | transfer (used : Used) (capture : Option Capture)
  deriving DecidableEq, Repr

def Action.effect : Action → Effect
  | .unlink seqnum unlinkSeqnum => .unlink seqnum unlinkSeqnum
  | .dispatch urb capture => .transfer urb.used capture

/-- A dispatched command is a `CMD_SUBMIT`, and what the dispatcher uses of it is what its own
header and the bytes after it carry. -/
def Turn.Own (srv : Served) (turn : Turn) : Prop :=
  ∀ urb capture, turn.action = some (.dispatch urb capture) →
    urb.command = usbipCmdSubmit ∧ urb.used = carried srv turn.hdr turn.body

/-- The commands in the first `n` turns on the stream have their own fields, and what they do does
not depend on what the record held. -/
def OwnFields (srv : Served) (n : Nat) (s : List UInt8) : Prop :=
  (∀ env, ∀ turn ∈ serveConn srv env n s, turn.Own srv) ∧
    ∀ env env' : Nat → TurnEnv, (∀ i, (env i).pcap = (env' i).pcap) →
      (serveConn srv env n s).map (fun turn => turn.action.map Action.effect) =
        (serveConn srv env' n s).map fun turn => turn.action.map Action.effect

/-- The command word of a header is one of those that the client sends. -/
def Known (hdr : List UInt8) : Prop :=
  word hdr usbipHdrCommandOff = usbipCmdSubmit ∨ word hdr usbipHdrCommandOff = usbipCmdUnlink

section
variable {srv : Served} {old old' urb : Urb} {s hdr body rest : List UInt8}

theorem readPayload_carried (srv : Served) (old : Urb) (body : List UInt8)
    (hc : word hdr usbipHdrCommandOff = usbipCmdSubmit) :
    readPayload (readHeader old hdr) body =
      if body.length < payloadLen hdr then none
      else some ({ readHeader old hdr with
        data := (carried srv hdr body).data, dataLen := (carried srv hdr body).dataLen },
        body.drop (payloadLen hdr)) := by
  rw [readHeader_submit old hc, readPayload]
  by_cases hout : word hdr usbipHdrDirectionOff = usbOut ∧ 0 < int32 (word hdr usbipCmdLengthOff)
  · have hlen : payloadLen hdr = (int32 (word hdr usbipCmdLengthOff)).toNat := if_pos hout
    have hne : payloadLen hdr ≠ 0 := by omega
    have hcast : (payloadLen hdr : Int) = int32 (word hdr usbipCmdLengthOff) := by omega
    refine (if_pos hout).trans ?_
    rw [← hlen, readn]
    split
    · rfl
    · simp only [Option.map_some, carried, if_neg hne, hcast]
      rfl
  · have hlen : payloadLen hdr = 0 := if_neg hout
    refine (if_neg hout).trans ?_
    simp [hlen, carried]

theorem readIso_carried (srv : Served) (urb : Urb) (hdr body : List UInt8) {body' : List UInt8}
    (hep : urb.ep = word hdr usbipHdrEpOff) (hdir : urb.direction = word hdr usbipHdrDirectionOff)
    (hnp : urb.numberOfPackets = int32 (word hdr usbipCmdNumpktsOff)) (hnone : urb.iso = none)
    (hbody : body' = body.drop (payloadLen hdr)) :
    readIso srv urb body' =
      if body'.length < isoCount srv hdr * usbipIsoDescLen then none
      else some ({ urb with iso := (carried srv hdr body).iso },
        body'.drop (isoCount srv hdr * usbipIsoDescLen)) := by
  subst hbody
  have hcount : isoCount srv hdr =
      if srv.Iso urb.ep urb.direction then urb.numberOfPackets.toNat else 0 := by
    rw [isoCount, hep, hdir, hnp]
  rw [readIso]
  by_cases hiso : srv.Iso urb.ep urb.direction ∧ 0 < urb.numberOfPackets
  · rw [if_pos hiso.1] at hcount
    have hne : isoCount srv hdr ≠ 0 := by omega
    rw [if_pos hiso, ← hcount, readn]
    split
    · rfl
    · simp only [Option.map_some, carried, if_neg hne]
      rfl
  · have hzero : isoCount srv hdr = 0 := by
      rw [hcount]
      split
      · have : ¬0 < urb.numberOfPackets := fun hpos => hiso ⟨‹_›, hpos⟩
        omega
      · rfl
    rw [if_neg hiso]
    simp [hzero, carried, ← hnone]

/-- A `CMD_SUBMIT` sets all that the dispatcher uses, and takes a number of bytes that its own
header decides. -/
theorem readCmd_carried (srv : Served) (old : Urb)
    (hread : readn usbipHdrLen s = some (hdr, body))
    (hc : word hdr usbipHdrCommandOff = usbipCmdSubmit) :
    (readCmd srv old s).2.map (fun got => (got.1.command, got.1.used, got.2)) =
      if body.length < payloadLen hdr + isoCount srv hdr * usbipIsoDescLen then none
      else some (usbipCmdSubmit, carried srv hdr body,
        body.drop (payloadLen hdr + isoCount srv hdr * usbipIsoDescLen)) := by
  have hp := readPayload_carried srv old body hc
  have hsub := readHeader_submit old hc
  by_cases hlen : body.length < payloadLen hdr
  · rw [if_pos hlen] at hp
    rw [readCmd_truncated hread hc hp, if_pos (by omega)]
    rfl
  · rw [if_neg hlen] at hp
    rw [readCmd_submit hread hc hp]
    have hi := readIso_carried srv
      { readHeader old hdr with
        data := (carried srv hdr body).data, dataLen := (carried srv hdr body).dataLen }
      hdr body (by rw [hsub]) (by rw [hsub]) (by rw [hsub]) (by rw [hsub]) rfl
    rw [hi, List.length_drop]
    by_cases hiso : body.length - payloadLen hdr < isoCount srv hdr * usbipIsoDescLen
    · rw [if_pos hiso, if_pos (by omega)]
      rfl
    · rw [if_neg hiso, if_neg (by omega), List.drop_drop, hsub]
      rfl

/-- What a turn with a known command does, and where it leaves the stream. -/
def effectOf (srv : Served) (pcap : Bool) (hdr body : List UInt8) : Option (Effect × List UInt8) :=
  if word hdr usbipHdrCommandOff = usbipCmdUnlink then
    some (.unlink (word hdr usbipHdrSeqnumOff) (word hdr usbipUnlinkSeqnumOff), body)
  else if body.length < payloadLen hdr + isoCount srv hdr * usbipIsoDescLen then none
  else
    some (.transfer (carried srv hdr body)
      (if pcap then some (captureOf srv (carried srv hdr body)) else none),
      body.drop (payloadLen hdr + isoCount srv hdr * usbipIsoDescLen))

/-- The effect of a known command does not depend on what the record held. -/
theorem effect_eq_effectOf (srv : Served) (env : TurnEnv)
    (hread : readn usbipHdrLen s = some (hdr, body))
    (hk : Known hdr) :
    (readCmd srv env.old s).2.map (fun got => ((act srv env got.1).2.2.effect, got.2)) =
      effectOf srv env.pcap hdr body := by
  have hne : usbipCmdSubmit ≠ usbipCmdUnlink := by decide
  rcases hk with hc | hu
  · have hcar := readCmd_carried srv env.old hread hc
    rw [effectOf, hc, if_neg hne]
    cases hgot : (readCmd srv env.old s).2 with
    | none =>
      rw [hgot] at hcar
      split at hcar
      · rename_i hshort
        rw [if_pos hshort]
        rfl
      · cases hcar
    | some got =>
      obtain ⟨urb, rest⟩ := got
      rw [hgot] at hcar
      split at hcar
      · cases hcar
      · rename_i hlong
        obtain ⟨hcmd, hused, hrest⟩ : urb.command = usbipCmdSubmit ∧
            urb.used = carried srv hdr body ∧ rest = _ := by simpa using hcar
        rw [if_neg hlong, Option.map_some, act, hcmd, if_neg hne, Action.effect, hused, hrest]
        rfl
  · have hc : word hdr usbipHdrCommandOff ≠ usbipCmdSubmit := by
      rw [hu]
      exact hne.symm
    have hcmd : (readHeader env.old hdr).command = usbipCmdUnlink := readHeader_command.trans hu
    rw [readCmd_other _ _ hread hc, Option.map_some, act, if_pos hcmd, effectOf, if_pos hu, readHeader,
      if_neg hc, if_pos hu]
    rfl

theorem serveConn_effect_congr {env env' : Nat → TurnEnv} {n : Nat}
    (hpcap : ∀ i, (env i).pcap = (env' i).pcap)
    (hk : ∀ turn ∈ serveConn srv env n s, Known turn.hdr) :
    (serveConn srv env n s).map (fun turn => turn.action.map Action.effect) =
      (serveConn srv env' n s).map fun turn => turn.action.map Action.effect := by
  induction n generalizing env env' s with
  | zero => rfl
  | succ n ih =>
    cases hread : readn usbipHdrLen s with
    | none => rw [serveConn, serveConn, hread]
    | some got =>
      obtain ⟨hdr, body⟩ := got
      have hknown : Known hdr := by
        rw [serveConn, hread] at hk
        cases hcmd : readCmd srv (env 0).old s with
        | mk looks got =>
          cases got <;> exact hk _ (by rw [hcmd]; exact List.mem_cons_self)
      have heff := effect_eq_effectOf srv (env 0) hread hknown
      have heff' := effect_eq_effectOf srv (env' 0) hread hknown
      rw [← hpcap 0, ← heff] at heff'
      rw [serveConn, hread] at hk
      rw [serveConn, serveConn, hread]
      cases hcmd : readCmd srv (env 0).old s with
      | mk looks got =>
        cases hcmd' : readCmd srv (env' 0).old s with
        | mk looks' got' =>
          rw [hcmd, hcmd'] at heff'
          rw [hcmd] at hk
          cases got with
          | none =>
            cases got' with
            | none => rfl
            | some got' => cases heff'
          | some got =>
            cases got' with
            | none => cases heff'
            | some got' =>
              obtain ⟨urb, rest⟩ := got
              obtain ⟨urb', rest'⟩ := got'
              obtain ⟨he, rfl⟩ : (act srv (env' 0) urb').2.2.effect =
                  (act srv (env 0) urb).2.2.effect ∧ rest' = rest := by simpa using heff'
              have := ih (fun i => hpcap (i + 1)) fun turn h => hk turn (List.mem_cons_of_mem _ h)
              simp only [List.map_cons, Option.map_some, he, this]

end

/-- The commands on a stream have their own fields exactly when none but `CMD_SUBMIT` and
`CMD_UNLINK` are on it. -/
theorem ownFields_iff_known (srv : Served) (n : Nat) (s : List UInt8) :
    OwnFields srv n s ↔ ∀ env, ∀ turn ∈ serveConn srv env n s, Known turn.hdr := by
  constructor
  · rintro ⟨hown, -⟩ env turn h
    by_contra hno
    obtain ⟨hs, hu⟩ := not_or.mp hno
    obtain ⟨i, s', hread, hturn⟩ := of_mem_serveConn h
    have hcmd := readCmd_other srv (env i).old hread hs
    rcases hturn with ⟨looks, hnone, -⟩ | ⟨looks, urb, rest, hsome, hturn⟩
    · rw [hcmd] at hnone
      cases hnone
    · rw [hcmd] at hsome
      cases hsome
      have haction := congrArg Turn.action hturn
      rw [act, if_neg (by rwa [readHeader_command])] at haction
      have := (hown env turn h _ _ haction).1
      exact hs (readHeader_command.symm.trans this)
  · intro hk
    refine ⟨fun env turn h urb capture haction => ?_,
      fun env env' hpcap => serveConn_effect_congr hpcap (hk env)⟩
    obtain ⟨i, s', hread, ⟨looks, -, hturn⟩ | ⟨looks, urb', rest, hsome, hturn⟩⟩ :=
      of_mem_serveConn h
    · rw [hturn] at haction
      cases haction
    · have hgot : (readCmd srv (env i).old s').2 = some (urb', rest) := by rw [hsome]
      obtain ⟨hcmd, -, -⟩ := readCmd_basic hread hgot
      rw [hturn] at haction
      simp only [Option.some.injEq, act] at haction
      split at haction
      · cases haction
      · rename_i hu
        cases haction
        have hc := (hk env turn h).resolve_right fun hunlink => hu (hcmd.trans hunlink)
        have hcar := readCmd_carried srv (env i).old hread hc
        rw [hgot] at hcar
        split at hcar
        · cases hcar
        · exact ⟨hcmd.trans hc, congrArg (fun got => got.2.1) (Option.some.inj hcar)⟩

/-- A `GET_STATUS` on endpoint 0, and after it a header that is neither a `CMD_SUBMIT` nor a
`CMD_UNLINK`. -/
def retHdr : List UInt8 :=
  putBytes (putBasicHdr usbipCmdSubmit 1 0x10002 usbIn 0) usbipCmdSetupOff
    [0x80, 0, 0, 0, 0, 0, 2, 0] ++ putBasicHdr usbipRetSubmit 2 0x10002 usbIn 0

/-- The second header is dispatched, with what the record holds as its setup packet. -/
theorem ownFields_fails : ¬OwnFields .bulkOut 2 retHdr := by
  intro h
  have hturn := h.1 (fun _ => ⟨.zero, false, false⟩) _ (List.mem_of_getElem? (i := 1) rfl)
  exact absurd (hturn _ _ rfl).1 (by decide)

end Usbip.Wire
