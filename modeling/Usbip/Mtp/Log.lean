import Usbip.Mtp.Command

/-! What each piece of a command leaves alone, and what it adds to the log.  `Logs P` says of two
worlds that the second has come from the first by effects that all meet `P`. -/

namespace Usbip.Mtp

open Lib Control

variable {β : Type} (B : Backend β)

/-- Nothing but the table and the next handle differs. -/
def MtpState.SameBut (st st' : MtpState) : Prop :=
  st' = { st with objs := st'.objs, nextHandle := st'.nextHandle }

namespace MtpState.SameBut

variable {st st' st'' : MtpState}

theorem refl (st : MtpState) : SameBut st st := rfl

theorem trans (h1 : SameBut st st') (h2 : SameBut st' st'') : SameBut st st'' := by
  unfold SameBut at *
  rw [h2, h1]

theorem readOnly (h : SameBut st st') : st'.readOnly = st.readOnly := by rw [h]
theorem nStores (h : SameBut st st') : st'.nStores = st.nStores := by rw [h]
theorem session (h : SameBut st st') : st'.session = st.session := by rw [h]
theorem rxActive (h : SameBut st st') : st'.rxActive = st.rxActive := by rw [h]
theorem rxCode (h : SameBut st st') : st'.rxCode = st.rxCode := by rw [h]
theorem rxTxid (h : SameBut st st') : st'.rxTxid = st.rxTxid := by rw [h]
theorem rxP (h : SameBut st st') : st'.rxP = st.rxP := by rw [h]
theorem sendTarget (h : SameBut st st') : st'.sendTarget = st.sendTarget := by rw [h]

theorem setTarget (h : SameBut st st') (target : UInt32) :
    SameBut { st with sendTarget := target } { st' with sendTarget := target } := by
  unfold SameBut at *
  rw [h]

end MtpState.SameBut

/-- The second world comes from the first by effects that meet `P`, and is stuck if the first is. -/
structure Logs (P : Effect β → Prop) (w w' : World β) : Prop where
  log : ∃ es, w'.log = w.log ++ es ∧ ∀ e ∈ es, P e
  stuck : w.stuck = true → w'.stuck = true

/-- The same, where nothing but the table changes. -/
structure Extends (P : Effect β → Prop) (w w' : World β) : Prop where
  logs : Logs P w w'
  same : w.st.SameBut w'.st

namespace Logs

variable {P : Effect β → Prop} {w w' w'' : World β}

theorem refl (w : World β) : Logs P w w := ⟨⟨[], by simp, by simp⟩, id⟩

theorem trans (h1 : Logs P w w') (h2 : Logs P w' w'') : Logs P w w'' := by
  obtain ⟨es, hes, hP⟩ := h1.log
  obtain ⟨fs, hfs, hQ⟩ := h2.log
  refine ⟨⟨es ++ fs, by rw [hfs, hes, List.append_assoc], fun e he => ?_⟩, h2.stuck ∘ h1.stuck⟩
  exact (List.mem_append.mp he).elim (hP e) (hQ e)

/-- What all the effects of both meet, it meets throughout. -/
theorem all (h : Logs P w w') (hw : ∀ e ∈ w.log, P e) : ∀ e ∈ w'.log, P e := by
  obtain ⟨es, hes, hP⟩ := h.log
  rw [hes]
  exact fun e he => (List.mem_append.mp he).elim (hw e) (hP e)

theorem setSt (st : MtpState) : Logs P w (w.setSt st) := ⟨⟨[], by simp [World.setSt], by simp⟩, id⟩

theorem note {e : Effect β} (he : P e) : Logs P w (w.note e) :=
  ⟨⟨[e], rfl, by simpa using he⟩, id⟩

theorem fail : Logs P w w.fail := ⟨⟨[], by simp [World.fail], by simp⟩, fun _ => rfl⟩

theorem ask {c : Call} (hc : P (.called c w.st)) : Logs P w (w.ask B c).2 := ⟨⟨_, rfl, by simpa⟩, id⟩

end Logs

namespace Extends

variable {P : Effect β → Prop} {w w' w'' : World β}

theorem refl (w : World β) : Extends P w w := ⟨.refl w, .refl w.st⟩

theorem trans (h1 : Extends P w w') (h2 : Extends P w' w'') : Extends P w w'' :=
  ⟨h1.logs.trans h2.logs, h1.same.trans h2.same⟩

theorem note {e : Effect β} (he : P e) : Extends P w (w.note e) := ⟨.note he, rfl⟩

theorem fail : Extends P w w.fail := ⟨.fail, rfl⟩

theorem ask {c : Call} (hc : P (.called c w.st)) : Extends P w (w.ask B c).2 := ⟨.ask B hc, rfl⟩

theorem setSt {st : MtpState} (h : w.st.SameBut st) : Extends P w (w.setSt st) := ⟨.setSt st, h⟩

/-- A fold of steps that extend every world with the same state but for the table. -/
theorem foldl {α : Type*} {f : World β → α → World β} {l : List α} {w : World β}
    (hf : ∀ w', w.st.SameBut w'.st → ∀ a ∈ l, Extends P w' (f w' a)) :
    Extends P w (l.foldl f w) := by
  induction l generalizing w with
  | nil => exact .refl w
  | cons a l ih =>
    have ha := hf w (.refl w.st) a List.mem_cons_self
    refine ha.trans (ih fun w' hw' b hb => ?_)
    exact hf w' (ha.same.trans hw') b (List.mem_cons_of_mem a hb)

/-- A container goes out, or nothing, or the run gets stuck. -/
theorem sendOne {pipe : Pipe} {type code : UInt16} {txid : UInt32} {payload : List UInt8}
    {plen : Int} (hP : ∀ payload, P (.sent pipe ⟨type, code, txid, payload⟩)) :
    Extends P w (w.sendOne pipe type code txid payload plen) := by
  unfold World.sendOne
  split
  · exact .refl w
  · split
    · exact .fail
    · exact .note (hP _)

theorem respond {rc : UInt16} {txid : UInt32} {values : List UInt32}
    (hP : ∀ payload, P (.sent .bulkIn ⟨ctResponse, rc, txid, payload⟩)) :
    Extends P w (w.respond rc txid values) := .sendOne hP

theorem sendEvent {code : UInt16} {param : UInt32}
    (hP : ∀ payload, P (.sent .interrupt ⟨ctEvent, code, all, payload⟩)) :
    Extends P w (w.sendEvent code param) := .sendOne hP

theorem sendData {code : UInt16} {txid : UInt32} {payload : List UInt8} {len : Int}
    (hP : ∀ payload, P (.sent .bulkIn ⟨ctData, code, txid, payload⟩)) :
    Extends P w (w.sendData code txid payload len) := .sendOne hP

/-! ### The scan -/

theorem upsert (si : Nat) (full name : CStr) (parent : UInt32) (info : Info) :
    Extends P w (w.upsert si full name parent info).2 := .setSt rfl

/-- A name of a directory, where the scan of the directory that it may be extends. -/
theorem scanName {scan : World β → CStr → UInt32 → World β}
    (hscan : ∀ w path handle, Extends P w (scan w path handle)) {si : Nat}
    (hget : ∀ path st, P (.called (.getInfo si path) st)) (relpath : CStr) (parent : UInt32)
    (w : World β) (name : CStr) : Extends P w (scanName B scan si relpath parent w name) := by
  have hask := Extends.ask (P := P) (w := w) B (hget (pathJoin 4096 relpath name) w.st)
  unfold Mtp.scanName
  dsimp only
  split
  · exact hask
  · have hup := fun info => hask.trans (.upsert si (pathJoin 4096 relpath name) name parent info)
    split
    · exact (hup _).trans (hscan _ _ _)
    · exact hup _

theorem scanDir {si : Nat} (hlist : ∀ path st, P (.called (.listdir si path) st))
    (hget : ∀ path st, P (.called (.getInfo si path) st)) (fuel : Nat) (w : World β)
    (relpath : CStr) (parent : UInt32) : Extends P w (scanDir B si fuel w relpath parent) := by
  induction fuel generalizing w relpath parent with
  | zero => exact .fail
  | succ fuel ih =>
    exact (Extends.ask B (hlist relpath w.st)).trans
      (.foldl fun w _ name _ => .scanName B ih hget relpath parent w name)

/-- A rescan lists and looks up, and then notes that it has ended. -/
theorem rescan {w : World β} (hlist : ∀ si path st, P (.called (.listdir si path) st))
    (hget : ∀ si path st, P (.called (.getInfo si path) st))
    (hend : P (.rescanned (rescan B w).st (rescan B w).disk)) : Extends P w (rescan B w) := by
  have hdead : Extends P w
      (w.setSt { w.st with objs := w.st.objs.map fun o => { o with alive := false } }) :=
    .setSt rfl
  refine hdead.trans (.trans (.foldl ?_) (.note hend))
  exact fun w _ si _ => .scanDir B (hlist si) (hget si) B.depth w [] 0

/-! ### Reading and copying -/

theorem readObject (hread : ∀ si path off want st, P (.called (.read si path off want) st))
    (w : World β) (o : Obj) (off want : Int) : Extends P w (readObject B w o off want).2 :=
  Extends.ask B (hread _ _ _ _ _)

/-- A copy calls only `make_dir`, `read` and `write`. -/
theorem copyTree (hread : ∀ si path off want st, P (.called (.read si path off want) st))
    {w : World β}
    (hdir : ∀ si path st, w.st.SameBut st → P (.called (.makeDir si path) st))
    (hwrite : ∀ si path data len st, w.st.SameBut st → P (.called (.write si path data len) st))
    (dsi fuel : Nat) (o : Obj) (dest name : CStr) :
    Extends P w (copyTree B dsi fuel w o dest name) := by
  induction fuel generalizing w o dest name with
  | zero => exact .fail
  | succ fuel ih =>
    unfold Mtp.copyTree
    dsimp only
    split
    · refine (Extends.ask B (hdir _ _ _ (.refl w.st))).trans (.foldl fun w' hw' child _ => ?_)
      split
      · exact ih (fun si path st h => hdir si path st (hw'.trans h))
          (fun si path data len st h => hwrite si path data len st (hw'.trans h)) _ _ _
      · exact .refl w'
    · have hr := Extends.readObject B hread w o 0 (-1)
      exact hr.trans (.ask B (hwrite _ _ _ _ _ hr.same))

end Extends

/-! ### Commands and data phases -/

/-- What a command does to the state, but for the table. -/
def Outcome.settle (st : MtpState) (code : UInt16) (txid : UInt32) (p : List UInt32) :
    Outcome → MtpState
  | .setSession id => { st with session := id }
  | .beginRx =>
    { st with rxActive := true, rxCode := code, rxTxid := txid, rxP := p, rxBuf := [], rxNeed := -1 }
  | _ => st

/-- What the end of a data phase does to the state, but for the table: a new file becomes the
target. -/
def RxOutcome.settle (st : MtpState) (target : UInt32) : RxOutcome → MtpState
  | .makeObject isDir .. => { st with sendTarget := if isDir then 0 else target }
  | .setDeviceProp text => { st with identity := st.identity.setProp (par st.rxP 0) text }
  | _ => st

@[simp] theorem answerMade_st (w : World β) (si : Nat) (handle : UInt32) :
    (answerMade w si handle).st = w.st := by
  unfold answerMade
  dsimp only
  split
  · rw [World.sendEvent, World.sendOne_st, World.respond_st]
  · rw [World.respond_st]

namespace MtpState.SameBut

variable {w w' : World β}

theorem ask (w : World β) (c : Call) : w.st.SameBut (w.ask B c).2.st := rfl

theorem rescan (w : World β) : w.st.SameBut (rescan B w).st :=
  (Extends.rescan (P := fun _ => True) B (fun _ _ _ => trivial) (fun _ _ _ => trivial)
    trivial).same

theorem copyTree (w : World β) (dsi fuel : Nat) (o : Obj) (dest name : CStr) :
    w.st.SameBut (copyTree B dsi fuel w o dest name).st :=
  (Extends.copyTree (P := fun _ => True) B (fun _ _ _ _ _ => trivial) (fun _ _ _ _ => trivial)
    (fun _ _ _ _ _ _ => trivial) dsi fuel o dest name).same

/-- A container changes nothing. -/
theorem sendOne (h : w.st.SameBut w'.st) (pipe : Pipe) (type code : UInt16) (txid : UInt32)
    (payload : List UInt8) (plen : Int) :
    w.st.SameBut (w'.sendOne pipe type code txid payload plen).st := by
  rw [World.sendOne_st]
  exact h

theorem renameObj (w : World β) (txid : UInt32) (o : Obj) (neu : CStr) :
    w.st.SameBut (renameObj B w txid o neu).st := by
  unfold Mtp.renameObj
  dsimp only
  split
  · have hretag : w.st.SameBut (World.setSt (w.ask B (.rename o.si o.path neu)).2
        { w.st with objs := retagPaths w.st.objs o.si o.path neu }).st := rfl
    exact (hretag.trans (rescan B _)).sendOne ..
  · exact (ask B w (.rename o.si o.path neu)).sendOne ..

theorem storageInfo (w : World β) (si : Nat) (id : UInt32) :
    w.st.SameBut (storageInfo B w si id).2.st := by
  have husage : w.st.SameBut (diskUsage B w si).2.st := by
    unfold diskUsage
    cases B.hasDiskUsage with
    | true => rfl
    | false => rfl
  have hdesc : ∀ w : World β, w.st.SameBut (description B w si).2.st := by
    intro w
    unfold description
    cases B.hasDescription with
    | true => rfl
    | false => rfl
  exact husage.trans (hdesc _)

theorem perform (w : World β) (code : UInt16) (txid : UInt32) (p : List UInt32) (o : Outcome) :
    (o.settle w.st code txid p).SameBut (perform B w code txid p o).st := by
  have hsend : ∀ w' : World β, w.st.SameBut w'.st →
      ∀ code txid payload, w.st.SameBut (w'.dataOk code txid payload).st :=
    fun w' h _ _ _ => (h.sendOne ..).sendOne ..
  cases o with
  | answer rc values => exact (refl w.st).sendOne ..
  | dataset payload => exact hsend w (refl w.st) ..
  | storageInfo si id => exact hsend _ (storageInfo B w si id) ..
  | setSession id => exact sendOne (w := w.setSt { w.st with session := id }) (refl _) ..
  | read o off want counted => exact ((ask B w _).sendOne ..).sendOne ..
  | remove o handle =>
    have hask := ask B w (.remove o.si o.path)
    unfold Mtp.perform
    dsimp only
    split
    · exact ((hask.trans (rescan B _)).sendOne ..).sendOne ..
    · exact hask.sendOne ..
  | beginRx => rfl
  | rename o neu => exact renameObj B w txid o neu
  | moveAcross o dsi dest =>
    have hcopy := copyTree B w dsi (w.st.objs.length + 1) o dest o.name
    exact ((hcopy.trans (ask B _ (.remove o.si o.path))).trans (rescan B _)).sendOne ..
  | copy o dsi dest => exact ((copyTree B w ..).trans (rescan B _)).sendOne ..
  | truncate o size =>
    have hask := ask B w (.truncate o.si o.path size)
    unfold Mtp.perform
    dsimp only
    split
    · split
      · exact (hask.trans (rescan B _)).sendOne ..
      · exact hask.sendOne ..
    · rfl
  | hang => rfl

theorem answerMade (h : w.st.SameBut w'.st) (si : Nat) (handle : UInt32) :
    w.st.SameBut (answerMade w' si handle).st := by
  rw [answerMade_st]
  exact h

theorem performRx (w : World β) (payload : List UInt8) (o : RxOutcome) :
    (o.settle w.st (performRx B w payload o).st.sendTarget).SameBut
      (performRx B w payload o).st := by
  cases o with
  | answer rc => exact (refl w.st).sendOne ..
  | makeObject isDir si full =>
    cases isDir with
    | true =>
      exact (rescan B ((w.tell B (.makeDir si full)).setSt { w.st with sendTarget := 0 })).answerMade
        ..
    | false =>
      have hscan := (ask B w (.write si full [] 0)).trans (rescan B _)
      have hset := hscan.setTarget (handleAt (Mtp.rescan B (w.tell B (.write si full [] 0))).st.objs
        si full)
      unfold Mtp.performRx
      dsimp only
      rw [if_neg (by decide), answerMade_st]
      exact hset
  | store o handle =>
    have hask := ask B w (.write o.si o.path payload payload.length)
    exact ((hask.trans (rescan B _)).sendOne ..).sendOne ..
  | setDeviceProp text =>
    exact sendOne (w := w.setSt { w.st with
      identity := w.st.identity.setProp (par w.st.rxP 0) text }) (refl _) ..
  | rename o neu => exact renameObj B w _ o neu
  | pwrite o off =>
    have hask := ask B w (.pwrite o.si o.path off payload payload.length)
    unfold Mtp.performRx
    dsimp only
    split
    · exact (hask.trans (rescan B _)).sendOne ..
    · rfl
  | none => rfl

/-- `SendObject` has no target any more when its data has come. -/
theorem completeRx (w : World β) :
    ((planRx w.st (rxPayload w.st)).settle
      (if w.st.rxCode = opSendObject then { w.st with sendTarget := 0 } else w.st)
      (completeRx B w).st.sendTarget).SameBut (completeRx B w).st := by
  unfold Mtp.completeRx
  dsimp only
  split
  · exact performRx B (w.setSt { w.st with sendTarget := 0 }) _ _
  · exact performRx B w _ _

end MtpState.SameBut

/-- The end of a data phase is in its session, and begins no other data phase. -/
theorem completeRx_keeps (w : World β) :
    (completeRx B w).st.session = w.st.session ∧ (completeRx B w).st.readOnly = w.st.readOnly ∧
      (completeRx B w).st.rxActive = w.st.rxActive := by
  have hsame := MtpState.SameBut.completeRx B w
  rw [hsame.session, hsame.readOnly, hsame.rxActive]
  cases planRx w.st (rxPayload w.st) <;> split <;> exact ⟨rfl, rfl, rfl⟩

end Usbip.Mtp
