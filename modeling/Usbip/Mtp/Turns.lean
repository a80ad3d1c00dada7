import Usbip.Mtp.Answer

/-! Runs in which the host sends nothing out of turn: every command is answered, and nothing else
is. -/

namespace Usbip.Mtp

open Lib Control

/-! ### What cannot come of a command -/

section
variable {st : MtpState} {code : UInt16} {p : List UInt32}

theorem needObj_ne_hang {objs : List Obj} {handle : UInt32} {needFile : Bool} {go : Obj → Outcome}
    (h : ∀ o, go o ≠ .hang) : needObj objs handle needFile go ≠ .hang := by
  unfold needObj
  split
  · nofun
  · split
    · nofun
    · exact h _

theorem needWritable_ne_hang {go : Outcome} (h : go ≠ .hang) : needWritable st go ≠ .hang := by
  unfold needWritable
  split
  · nofun
  · exact h

theorem needTarget_ne_hang {go : Obj → Nat → CStr → Outcome}
    (h : ∀ o dsi dest, go o dsi dest ≠ .hang) : needTarget st p go ≠ .hang := by
  refine needObj_ne_hang fun o => ?_
  split
  · nofun
  · next dsi dest _ => exact h o dsi dest

theorem ite_ne_hang {c : Prop} [Decidable c] {a b : Outcome} (ha : a ≠ .hang) (hb : b ≠ .hang) :
    (if c then a else b) ≠ .hang := by
  split
  · exact ha
  · exact hb

variable (hends : ∀ handle ancestor, isDescendant st.objs handle ancestor ≠ none)
include hends

theorem propSelected_ends (handle fmt depth : UInt32) (o : Obj) :
    ∃ b, propSelected st.objs handle fmt depth o = some b := by
  obtain ⟨b, hb⟩ := Option.ne_none_iff_exists'.mp (hends o.handle handle)
  unfold propSelected
  rw [hb]
  dsimp only
  split_ifs <;> exact ⟨_, rfl⟩

theorem propEntriesOf_ends (dateText : UInt32 → CStr) (handle fmt propcode depth : UInt32)
    (objs : List Obj) :
    ∃ entries, propEntriesOf dateText st.readOnly st.objs handle fmt propcode depth objs =
      some entries := by
  induction objs with
  | nil => exact ⟨[], rfl⟩
  | cons o rest ih =>
    obtain ⟨b, hb⟩ := propSelected_ends hends handle fmt depth o
    obtain ⟨more, hmore⟩ := ih
    rw [propEntriesOf, hb, hmore]
    exact ⟨_, rfl⟩

theorem buildPropList_ne_hang (dateText : UInt32 → CStr) (handle fmt propcode depth : UInt32) :
    ofDataset (buildPropList dateText st.readOnly st.objs handle fmt propcode depth) ≠ .hang := by
  obtain ⟨entries, hentries⟩ :=
    propEntriesOf_ends hends dateText handle fmt propcode depth st.objs
  rw [buildPropList, hentries]
  nofun

/-- Only the climbs of a list of properties might not end. -/
theorem plan_ne_hang (dateText : UInt32 → CStr) (code : UInt16) (p : List UInt32) :
    plan dateText st code p ≠ .hang := by
  unfold plan
  refine ite_ne_hang nofun <| ite_ne_hang ?_ <| ite_ne_hang nofun <| ite_ne_hang nofun <|
    ite_ne_hang ?_ <| ite_ne_hang nofun <| ite_ne_hang nofun <|
    ite_ne_hang (needObj_ne_hang nofun) <| ite_ne_hang (needObj_ne_hang nofun) <|
    ite_ne_hang (needObj_ne_hang nofun) <| ite_ne_hang (needObj_ne_hang nofun) <|
    ite_ne_hang (needWritable_ne_hang (needObj_ne_hang nofun)) <|
    ite_ne_hang (needWritable_ne_hang nofun) <|
    ite_ne_hang (needWritable_ne_hang (ite_ne_hang nofun nofun)) <|
    ite_ne_hang (needWritable_ne_hang
      (needTarget_ne_hang fun _ _ _ => ite_ne_hang nofun nofun)) <|
    ite_ne_hang (needWritable_ne_hang (needTarget_ne_hang nofun)) <|
    ite_ne_hang (needWritable_ne_hang nofun) <| ite_ne_hang nofun <|
    ite_ne_hang (needWritable_ne_hang (needObj_ne_hang nofun)) <|
    ite_ne_hang (needWritable_ne_hang (needObj_ne_hang nofun)) <|
    ite_ne_hang ?_ <| ite_ne_hang ?_ <| ite_ne_hang nofun <| ite_ne_hang nofun <|
    ite_ne_hang (ite_ne_hang nofun nofun) <| ite_ne_hang (needObj_ne_hang fun o => ?_) <|
    ite_ne_hang (buildPropList_ne_hang hends dateText _ _ _ _) <| ite_ne_hang nofun nofun
  · exact ite_ne_hang nofun (ite_ne_hang nofun nofun)
  · split <;> nofun
  · split <;> nofun
  · split <;> nofun
  · split <;> nofun

end

theorem needObjRx_ne_none {objs : List Obj} {handle : UInt32} {needFile : Bool}
    {go : Obj → RxOutcome} (h : ∀ o, go o ≠ .none) : needObjRx objs handle needFile go ≠ .none := by
  unfold needObjRx
  split
  · nofun
  · split
    · nofun
    · exact h _

/-- Every data phase belongs to an operation that has one. -/
theorem planRx_ne_none {st : MtpState} (h : st.rxCode ∈ dataOps) (payload : List UInt8) :
    planRx st payload ≠ .none := by
  unfold planRx planObjectInfo planSetProp
  split_ifs with hinfo hsend hdev hset hpart
  · nofun
  · dsimp only
    split
    · nofun
    · split_ifs <;> nofun
  · split <;> nofun
  · nofun
  · refine needObjRx_ne_none fun o => ?_
    dsimp only
    split_ifs <;> nofun
  · exact needObjRx_ne_none nofun
  · rw [dataOps, List.mem_cons, List.mem_cons, List.mem_cons, List.mem_cons,
      List.mem_singleton] at h
    tauto

/-- Every operation that begins a data phase is one of these. -/
theorem Planned.mem_dataOps {st : MtpState} {code : UInt16} {p : List UInt32}
    (h : Planned st code p .beginRx) : code ∈ dataOps := by
  rw [dataOps, List.mem_cons, List.mem_cons, List.mem_cons, List.mem_cons, List.mem_singleton]
  unfold Planned at h
  tauto

/-! ### What the host knows of the state -/

/-- The length of a container, from its twelfth byte on. -/
def needOf (held : List UInt8) : Int := if 12 ≤ held.length then ((getLe32 held).toNat : Int) else -1

/-- The state that a phase is about. -/
def Phase.Matches (st : MtpState) : Phase → Prop
  | .idle => st.rxActive = false
  | .data txid held =>
    st.rxActive = true ∧ st.rxTxid = txid ∧ st.rxBuf = held ∧ st.rxNeed = needOf held ∧
      st.rxCode ∈ dataOps

theorem getLe32_append {l : List UInt8} (h : 4 ≤ l.length) (l' : List UInt8) :
    getLe32 (l ++ l') = getLe32 l := by
  match l, h with
  | _ :: _ :: _ :: _ :: _, _ => rfl

/-- The length of a container stays as its bytes go on. -/
theorem fill_need {st : MtpState} (h : st.rxNeed = needOf st.rxBuf) (chunk : List UInt8) :
    (st.fill chunk).rxNeed = needOf (st.rxBuf ++ chunk) := by
  unfold MtpState.fill
  dsimp only
  rw [h]
  by_cases hheld : 12 ≤ st.rxBuf.length
  · have hlen : 12 ≤ (st.rxBuf ++ chunk).length := by rw [List.length_append]; omega
    rw [needOf, if_pos hheld, if_neg (by omega), needOf, if_pos hlen,
      getLe32_append (by omega) chunk]
  · rw [needOf, if_neg hheld, needOf]
    split_ifs <;> first | rfl | omega

/-- A container is whole for the class when it is for the host. -/
theorem fill_whole {st : MtpState} (h : st.rxNeed = needOf st.rxBuf) (chunk : List UInt8) :
    (st.fill chunk).whole = true ↔ Whole (st.rxBuf ++ chunk) := by
  have hneed := fill_need h chunk
  have hbuf : (st.fill chunk).rxBuf = st.rxBuf ++ chunk := rfl
  rw [MtpState.whole, decide_eq_true_iff, hneed, hbuf, needOf, Whole]
  split_ifs with hlen <;> omega

/-- The class goes on, in a phase that the host knows. -/
def Follows {β : Type} (w : World β) (ph : Option Phase) : Prop :=
  w.stuck = false ∧ ∃ q, ph = some q ∧ q.Matches w.st

section
variable {β : Type} {B : Backend β} {w w' : World β} {l : List (UInt16 × UInt32)}
  {chunk : List UInt8}

theorem Says.sentBetween (h : Says w w' l) : sentBetween w w' = l := by
  obtain ⟨es, hes, hl⟩ := h.sent
  rw [Mtp.sentBetween, hes, List.drop_left, hl]

theorem sentBetween_self (w : World β) : sentBetween w w = [] := (Says.refl w).sentBetween

/-! ### One action -/

/-- The answer to a command, between commands. -/
theorem follows_answered (hstuck : w.stuck = false) (hidle : w.st.rxActive = false)
    (hcmd : IsCommand chunk) (hout : Says w w' l) (hanswers : Answers (getLe32 (chunk.drop 8)) l) :
    Follows w' (Phase.idle.after (Act.out (β := β) chunk) (sentBetween w w')) := by
  refine ⟨hout.stuck.trans hstuck, .idle, ?_, hout.rxActive.trans hidle⟩
  rw [hout.sentBetween, Phase.after, if_pos hcmd, Phase.command, if_pos hanswers]

/-- A command that begins a data phase. -/
theorem follows_beginRx (hstuck : w.stuck = false) (hcmd : IsCommand chunk)
    (hcode : getLe16 (chunk.drop 6) ∈ dataOps) (p : List UInt32) :
    Follows (perform B w (getLe16 (chunk.drop 6)) (getLe32 (chunk.drop 8)) p .beginRx)
      (Phase.idle.after (Act.out (β := β) chunk) (sentBetween w
        (perform B w (getLe16 (chunk.drop 6)) (getLe32 (chunk.drop 8)) p .beginRx))) := by
  have hsent : sentBetween w (perform B w (getLe16 (chunk.drop 6)) (getLe32 (chunk.drop 8)) p
    .beginRx) = [] := sentBetween_self w
  have hwaits : ¬Answers (getLe32 (chunk.drop 8)) [] := by rintro (h | h) <;> cases h
  refine ⟨hstuck, .data (getLe32 (chunk.drop 8)) [], ?_, rfl, rfl, rfl, rfl, hcode⟩
  rw [hsent, Phase.after, if_pos hcmd, Phase.command, if_neg hwaits, if_pos ⟨rfl, hcode⟩]

/-- A chunk between commands. -/
theorem follows_command (hB : Shallow B) (hsane : Sane w.st) (hstuck : w.stuck = false)
    (hidle : w.st.rxActive = false) (hturn : CommandInTurn B w chunk) :
    Follows (onOut B w chunk)
      (Phase.idle.after (Act.out (β := β) chunk) (sentBetween w (onOut B w chunk))) := by
  rw [onOut_of_inactive B hidle]
  by_cases hlen : 12 ≤ chunk.length
  · obtain ⟨hcmd, hobjs, hserv⟩ := hturn hlen
    rw [dispatch, if_neg (not_lt.mpr hlen)]
    dsimp only
    split
    · exact follows_answered hstuck hidle hcmd (.respond w ..) (.inl rfl)
    · next hopen =>
      have hends := isDescendant_ends (hsane.descends hobjs)
      have hplanned := Planned.plan w.st (getLe16 (chunk.drop 6)) (paramsOf chunk) B.dateText
      have hhang := plan_ne_hang hends B.dateText (getLe16 (chunk.drop 6)) (paramsOf chunk)
      have hserv := hserv.resolve_left hopen
      generalize plan B.dateText w.st (getLe16 (chunk.drop 6)) (paramsOf chunk) = o at *
      by_cases hrx : o = .beginRx
      · subst hrx
        exact follows_beginRx hstuck hcmd (Planned.mem_dataOps hplanned) (paramsOf chunk)
      · obtain ⟨l, hout, hanswers⟩ := says_perform hB hsane hobjs hplanned hserv hhang hrx
          (getLe32 (chunk.drop 8))
        exact follows_answered hstuck hidle hcmd hout hanswers
  · have hcmd : ¬IsCommand chunk := fun h => hlen h.1
    rw [dispatch, if_pos (not_le.mp hlen), sentBetween_self, Phase.after, if_neg hcmd, if_pos rfl]
    exact ⟨hstuck, .idle, rfl, hidle⟩

theorem says_completeRx (hB : Shallow B) (hcode : w.st.rxCode ∈ dataOps)
    (hserv : (planRx w.st (rxPayload w.st)).Servable B) :
    Says w (completeRx B w) [(ctResponse, w.st.rxTxid)] := by
  have hnone := planRx_ne_none hcode (rxPayload w.st)
  unfold completeRx
  dsimp only
  split
  · have hset : Says w (w.setSt { w.st with sendTarget := 0 }) [] := .setSt rfl rfl
    exact hset.trans (says_performRx hB _ _ hserv hnone)
  · exact says_performRx hB w _ hserv hnone

/-- A chunk in a data phase. -/
theorem follows_data (hB : Shallow B) (hstuck : w.stuck = false) {txid : UInt32} {held : List UInt8}
    (hph : (Phase.data txid held).Matches w.st) (hturn : DataInTurn B w chunk) :
    Follows (onOut B w chunk)
      ((Phase.data txid held).after (Act.out (β := β) chunk) (sentBetween w (onOut B w chunk))) := by
  obtain ⟨hrx, rfl, rfl, hneed, hcode⟩ := hph
  obtain ⟨hcmd, hserv⟩ := hturn
  rw [Phase.after, if_neg hcmd]
  cases hwhole : (w.st.fill chunk).whole with
  | true =>
    have hout := says_completeRx (w := w.setSt (w.st.fill chunk).endRx) hB hcode (hserv hwhole)
    have hsent : sentBetween w (completeRx B (w.setSt (w.st.fill chunk).endRx)) =
      [(ctResponse, w.st.rxTxid)] := hout.sentBetween
    rw [onOut_of_whole B hrx hwhole, if_pos ((fill_whole hneed chunk).mp hwhole), if_pos hsent]
    exact ⟨hout.stuck.trans hstuck, .idle, rfl, hout.rxActive⟩
  | false =>
    have hpart : ¬Whole (w.st.rxBuf ++ chunk) := fun h => by
      rw [(fill_whole hneed chunk).mpr h] at hwhole
      cases hwhole
    rw [onOut_of_not_whole B hrx hwhole, if_neg hpart,
      show sentBetween w (w.setSt (w.st.fill chunk)) = [] from sentBetween_self w, if_pos rfl]
    exact ⟨hstuck, _, rfl, hrx, rfl, rfl, fill_need hneed chunk, hcode⟩

/-- Of the control requests, only Device Reset ends a data phase. -/
theorem control_rxActive (st : MtpState) (setup : Setup) :
    (st.control setup).rxActive =
      if setup.reqType = 1 ∧ setup.bRequest = 0x66 then false else st.rxActive := by
  unfold MtpState.control Classes.mtpControl
  dsimp only
  split_ifs <;> first | rfl | simp_all

/-- A control request, which sends nothing. -/
theorem follows_control (hstuck : w.stuck = false) {ph : Phase} (hmatch : ph.Matches w.st)
    {setup : Setup} (hturn : setup.reqType = 1 ∧ setup.bRequest = 0x64 → w.st.rxActive = false) :
    Follows (w.setSt (w.st.control setup)) (ph.after (Act.control (β := β) setup)
      (sentBetween w (w.setSt (w.st.control setup)))) := by
  rw [show sentBetween w (w.setSt (w.st.control setup)) = [] from sentBetween_self w, Phase.after,
    if_pos rfl]
  have hactive := control_rxActive w.st setup
  by_cases haborts : Aborts setup
  · rw [if_pos haborts]
    refine ⟨hstuck, .idle, rfl, ?_⟩
    obtain ⟨htype, hcancel | hreset⟩ := haborts
    · rw [if_neg (fun h => absurd (hcancel.symm.trans h.2) (by decide)),
        hturn ⟨htype, hcancel⟩] at hactive
      exact hactive
    · rw [if_pos ⟨htype, hreset⟩] at hactive
      exact hactive
  · rw [if_neg haborts]
    rw [if_neg fun h => haborts ⟨h.1, .inr h.2⟩] at hactive
    refine ⟨hstuck, ph, rfl, ?_⟩
    cases ph with
    | idle => exact hactive.trans hmatch
    | data txid held => exact ⟨hactive.trans hmatch.1, hmatch.2⟩

theorem follows_outside (hstuck : w.stuck = false) {ph : Phase} (hmatch : ph.Matches w.st)
    (disk : β) :
    Follows { w with disk } (ph.after (.outside disk) (sentBetween w { w with disk })) := by
  rw [show sentBetween w { w with disk } = [] from sentBetween_self w, Phase.after, if_pos rfl]
  exact ⟨hstuck, ph, rfl, hmatch⟩

/-- What holds of a session in which the host sends nothing out of turn. -/
structure Session.Ordered (s : Session β) : Prop where
  sane : Sane s.world.st
  follows : Follows s.world s.phase

theorem Session.Ordered.next (hB : Shallow B) {s t : Session β} (h : s.Ordered) {a : Act β}
    (hturn : a.InTurn B s.world) (hstep : Session.next B s a = some t) : t.Ordered := by
  obtain ⟨hstuck, ph, hph, hmatch⟩ := h.follows
  rw [Session.next, next_of_not_stuck B hstuck, Option.map_some, Option.some.injEq, hph,
    Option.bind_some] at hstep
  subst hstep
  refine ⟨h.sane.act hB a, ?_⟩
  cases a with
  | out chunk =>
    cases ph with
    | idle =>
      have hidle : s.world.st.rxActive = false := hmatch
      rw [Act.InTurn, if_neg (by simp [hidle])] at hturn
      exact follows_command hB h.sane hstuck hidle hturn
    | data txid held =>
      rw [Act.InTurn, if_pos hmatch.1] at hturn
      exact follows_data hB hstuck hmatch hturn
  | control setup => exact follows_control hstuck hmatch hturn
  | outside disk => exact follows_outside hstuck hmatch disk

/-- In every run over a backend whose scans end, where the host sends nothing out of turn and asks
for nothing that cannot be served: every command is answered once, behind its data, nothing else is
answered, and after a Cancel or a Device Reset the next command is taken as one. -/
theorem served_in_turn (hB : Shallow B) (opts : MtpOpts) (disk : β) {acts : List (Act β)}
    (hg : Guarded (Session.next B) (fun s a => a.InTurn B s.world) (.start B opts disk) acts) :
    Throughout (Session.next B) Session.Served (.start B opts disk) acts := by
  refine throughout_of_guarded (I := Session.Ordered) (fun s hs => ?_)
    (fun s a t hs hturn hstep => hs.next hB hturn hstep) ?_ hg
  · obtain ⟨hstuck, ph, hph, -⟩ := hs.follows
    exact ⟨hstuck, by rw [hph]; nofun⟩
  · have hstart := Says.rescan hB ⟨opts.initial, disk, [], false⟩
    exact ⟨sane_rescan hB .nil, hstart.stuck, .idle, rfl, hstart.rxActive⟩

end

/-! ### Runs out of turn -/

/-- A function that can only be read, where the host sends the data of a command that has been
rejected. -/
def sendsOn : List (Act Unit) := makesDir (ascii "n")

/-- The host cancels a transfer, and asks for the stores. -/
def cancels : List (Act Unit) :=
  (makesDir (ascii "n")).take 2 ++
    [.control ⟨0x21, 0x64, 0, 0, 6⟩, .out (Container.bytes ⟨1, opGetStorageIds, 3, []⟩)]

theorem not_throughout_served {B : Backend Unit} {s : Session Unit} {acts : List (Act Unit)}
    (h : (exec (Session.next B) s acts).map Session.phase = some none) :
    ¬Throughout (Session.next B) Session.Served s acts := by
  intro ht
  obtain ⟨t, hrun, hphase⟩ := Option.map_eq_some_iff.mp h
  exact (ht.last hrun).2 hphase

/-- The data of a rejected command is answered as a command, and a command behind a Cancel is taken
as data. -/
theorem not_served :
    ¬Throughout (Session.next sampleBackend) Session.Served
        (.start sampleBackend ⟨true, none, none, none, 2⟩ ()) sendsOn ∧
      ¬Throughout (Session.next sampleBackend) Session.Served
        (.start sampleBackend ⟨false, none, none, none, 2⟩ ()) cancels :=
  ⟨not_throughout_served (by decide), not_throughout_served (by decide)⟩

theorem sample_shallow : Shallow sampleBackend where
  nonempty _ si dir n hn := by rcases sampleTree_ls hn with ⟨-, rfl⟩ | ⟨-, rfl⟩ <;> decide
  short _ si dir n hn := by
    rcases sampleTree_ls hn with ⟨rfl, rfl⟩ | ⟨rfl, rfl⟩ <;> decide
  depth := by decide

theorem served_in_turn_sample :
    Throughout (Session.next sampleBackend) Session.Served
      (.start sampleBackend ⟨false, none, none, none, 2⟩ ())
      (makesDir (ascii "n") ++ [.out (Container.bytes ⟨1, opGetStorageIds, 3, []⟩)]) :=
  served_in_turn sample_shallow _ () (by decide)

end Usbip.Mtp
