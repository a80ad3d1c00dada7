import Usbip.Lib.Run
import Usbip.Mtp.Plan

/-! No callback that changes the tree is called on a read-only function or without a session, also
not at the end of a data phase that a command has begun: `RxPermitted` says that an open data phase
has the permission of its command. -/

namespace Usbip.Mtp

open Lib Control

def Call.mutates : Call → Bool
  | .write .. | .makeDir .. | .remove .. | .rename .. | .pwrite .. | .truncate .. => true
  | _ => false

/-- A function that may be written, in a session. -/
def MtpState.Writable (st : MtpState) : Prop := st.readOnly = false ∧ st.session ≠ 0

/-- A callback that changes the tree is called in a state that allows it. -/
def Permitted {β : Type} : Effect β → Prop
  | .called c st => c.mutates = true → st.Writable
  | _ => True

/-- A data phase that changes the tree at its end is open in a state that allows it. -/
def RxPermitted (st : MtpState) : Prop :=
  st.rxActive = true → st.rxCode = opSetDevicePropValue ∨ st.Writable

theorem MtpState.SameBut.writable {st st' : MtpState} (h : st.SameBut st') (hw : st.Writable) :
    st'.Writable := ⟨h.readOnly.trans hw.1, fun h0 => hw.2 (h.session.symm.trans h0)⟩

theorem RxPermitted.of_inactive {st : MtpState} (h : st.rxActive = false) : RxPermitted st :=
  fun hrx => absurd (h.symm.trans hrx) (by decide)

section
variable {β : Type} (B : Backend β) {w w' : World β}

theorem permitted_rescan (w : World β) : Extends Permitted w (rescan B w) :=
  .rescan B (fun _ _ _ => nofun) (fun _ _ _ => nofun) trivial

theorem permitted_respond (rc : UInt16) (txid : UInt32) (values : List UInt32) :
    Extends Permitted w (w.respond rc txid values) := .respond fun _ => trivial

theorem permitted_sendEvent (code : UInt16) (param : UInt32) :
    Extends Permitted w (w.sendEvent code param) := .sendEvent fun _ => trivial

theorem permitted_dataOk (code : UInt16) (txid : UInt32) (payload : List UInt8) :
    Extends Permitted w (w.dataOk code txid payload) :=
  (Extends.sendData fun _ => trivial).trans (permitted_respond ..)

theorem permitted_ask {c : Call} (h : w.st.Writable) : Extends Permitted w (w.ask B c).2 :=
  .ask B fun _ => h

theorem permitted_query {c : Call} (h : c.mutates = false) : Extends Permitted w (w.ask B c).2 :=
  .ask B fun hc => absurd (h.symm.trans hc) (by decide)

theorem permitted_copyTree (h : w.st.Writable) (dsi fuel : Nat) (o : Obj) (dest name : CStr) :
    Extends Permitted w (copyTree B dsi fuel w o dest name) :=
  .copyTree B (fun _ _ _ _ _ => nofun) (fun _ _ _ hs _ => hs.writable h)
    (fun _ _ _ _ _ hs _ => hs.writable h) dsi fuel o dest name

theorem permitted_renameObj (h : w.st.Writable) (txid : UInt32) (o : Obj) (neu : CStr) :
    Extends Permitted w (renameObj B w txid o neu) := by
  have hask := permitted_ask B (w := w) (c := .rename o.si o.path neu) h
  unfold renameObj
  dsimp only
  split
  · have hretag : Extends Permitted (w.ask B (.rename o.si o.path neu)).2 (World.setSt _
        { w.st with objs := retagPaths w.st.objs o.si o.path neu }) := .setSt rfl
    exact hask.trans (hretag.trans ((permitted_rescan B _).trans (permitted_respond ..)))
  · exact hask.trans (permitted_respond ..)

theorem permitted_storageInfo (w : World β) (si : Nat) (id : UInt32) :
    Extends Permitted w (storageInfo B w si id).2 := by
  have husage : Extends Permitted w (diskUsage B w si).2 := by
    unfold diskUsage
    cases B.hasDiskUsage with
    | true => exact permitted_query B (c := .diskUsage si) rfl
    | false => exact .refl w
  have hdesc : ∀ w, Extends Permitted w (description B w si).2 := by
    intro w
    unfold description
    cases B.hasDescription with
    | true => exact permitted_query B (c := .description si) rfl
    | false => exact .refl w
  exact husage.trans (hdesc _)

/-- What a command adds to the log, and the state that it leaves. -/
theorem permitted_perform {code : UInt16} {p : List UInt32} {outcome : Outcome}
    (hplan : Planned w.st code p outcome)
    (hsession : code ≠ opGetDeviceInfo → code ≠ opOpenSession → w.st.session ≠ 0)
    (hrx : w.st.rxActive = false) (txid : UInt32) :
    Logs Permitted w (perform B w code txid p outcome) ∧
      RxPermitted (perform B w code txid p outcome).st := by
  have extends_ : ∀ {w'}, Extends Permitted w w' → Logs Permitted w w' ∧ RxPermitted w'.st :=
    fun h => ⟨h.logs, .of_inactive (h.same.rxActive.trans hrx)⟩
  cases outcome with
  | answer rc values => exact extends_ (permitted_respond ..)
  | dataset payload => exact extends_ (permitted_dataOk ..)
  | storageInfo si id =>
    exact extends_ ((permitted_storageInfo B w si id).trans (permitted_dataOk ..))
  | setSession id =>
    exact ⟨(Logs.setSt _).trans (permitted_respond ..).logs,
      .of_inactive ((permitted_respond ..).same.rxActive.trans hrx)⟩
  | read o off want counted =>
    refine extends_ ((Extends.readObject B (fun _ _ _ _ _ => nofun) w o off want).trans ?_)
    exact (Extends.sendData fun _ => trivial).trans (permitted_respond ..)
  | remove o handle =>
    obtain ⟨rfl, hro, -, -⟩ := hplan
    have hw : w.st.Writable := ⟨hro, hsession (by decide) (by decide)⟩
    have hask := permitted_ask B (w := w) (c := .remove o.si o.path) hw
    unfold perform
    dsimp only
    split
    · refine extends_ (hask.trans ((permitted_rescan B _).trans ?_))
      exact (permitted_respond ..).trans (permitted_sendEvent ..)
    · exact extends_ (hask.trans (permitted_respond ..))
  | beginRx =>
    refine ⟨.setSt _, fun _ => ?_⟩
    rcases hplan with hdev | ⟨hcode, hro⟩
    · exact .inl hdev
    · refine .inr ⟨hro, hsession ?_ ?_⟩ <;> rcases hcode with rfl | rfl | rfl | rfl <;> decide
  | rename o neu =>
    obtain ⟨rfl, hro, -, -⟩ := hplan
    exact extends_ (permitted_renameObj B ⟨hro, hsession (by decide) (by decide)⟩ txid o neu)
  | moveAcross o dsi dest =>
    obtain ⟨rfl, hro, -, -⟩ := hplan
    have hw : w.st.Writable := ⟨hro, hsession (by decide) (by decide)⟩
    have hcopy := permitted_copyTree B hw dsi (w.st.objs.length + 1) o dest o.name
    have hask := permitted_ask B (c := .remove o.si o.path) (hcopy.same.writable hw)
    exact extends_ (hcopy.trans (hask.trans ((permitted_rescan B _).trans (permitted_respond ..))))
  | copy o dsi dest =>
    obtain ⟨rfl, hro, -, -⟩ := hplan
    have hw : w.st.Writable := ⟨hro, hsession (by decide) (by decide)⟩
    have hcopy := permitted_copyTree B hw dsi (w.st.objs.length + 1) o dest o.name
    exact extends_ (hcopy.trans ((permitted_rescan B _).trans (permitted_respond ..)))
  | truncate o size =>
    obtain ⟨rfl, hro, -, -⟩ := hplan
    have hw : w.st.Writable := ⟨hro, hsession (by decide) (by decide)⟩
    have hask := permitted_ask B (w := w) (c := .truncate o.si o.path size) hw
    unfold perform
    dsimp only
    split
    · split
      · exact extends_ (hask.trans ((permitted_rescan B _).trans (permitted_respond ..)))
      · exact extends_ (hask.trans (permitted_respond ..))
    · exact extends_ .fail
  | hang => exact extends_ .fail

theorem permitted_dispatch (hrx : w.st.rxActive = false) (chunk : List UInt8) :
    Logs Permitted w (dispatch B w chunk) ∧ RxPermitted (dispatch B w chunk).st := by
  unfold dispatch
  split
  · exact ⟨.refl w, .of_inactive hrx⟩
  · dsimp only
    split
    · exact ⟨(permitted_respond ..).logs,
        .of_inactive ((permitted_respond ..).same.rxActive.trans hrx)⟩
    · next hopen =>
      exact permitted_perform B (.plan _ _ _ B.dateText) (fun h1 h2 h3 => hopen ⟨h1, h2, h3⟩) hrx _

theorem permitted_answerMade (w : World β) (si : Nat) (handle : UInt32) :
    Extends Permitted w (answerMade w si handle) := by
  unfold answerMade
  dsimp only
  split
  · exact (permitted_respond ..).trans (permitted_sendEvent ..)
  · exact permitted_respond ..

/-- What the end of a data phase adds to the log, in a state that allows it. -/
theorem permitted_performRx {payload : List UInt8} {st : MtpState} {outcome : RxOutcome}
    (hplan : PlannedRx st payload outcome) (hst : w.st.rxCode = st.rxCode)
    (hw : w.st.rxCode = opSetDevicePropValue ∨ w.st.Writable) :
    Logs Permitted w (performRx B w payload outcome) ∧
      (performRx B w payload outcome).st.rxActive = w.st.rxActive := by
  have extends_ : ∀ {w'}, Extends Permitted w w' →
      Logs Permitted w w' ∧ w'.st.rxActive = w.st.rxActive := fun h => ⟨h.logs, h.same.rxActive⟩
  have writable : ∀ {code}, code ≠ opSetDevicePropValue → st.rxCode = code → w.st.Writable :=
    fun hne hcode => hw.resolve_left fun hdev => hne (hcode.symm.trans (hst.symm.trans hdev))
  cases outcome with
  | answer rc => exact extends_ (permitted_respond ..)
  | makeObject isDir si full =>
    have hw := writable (by decide) hplan.1
    unfold performRx
    cases isDir with
    | true =>
      have hask := permitted_ask B (w := w) (c := .makeDir si full) hw
      have hscan := permitted_rescan B
        ((w.tell B (.makeDir si full)).setSt { w.st with sendTarget := 0 })
      have hans := fun handle => hscan.trans (permitted_answerMade _ si handle)
      exact ⟨hask.logs.trans ((Logs.setSt _).trans (hans _).logs), (hans _).same.rxActive⟩
    | false =>
      have hask := permitted_ask B (w := w) (c := .write si full [] 0) hw
      have hscan := hask.trans (permitted_rescan B _)
      have hans := fun w handle => permitted_answerMade (β := β) w si handle
      exact ⟨hscan.logs.trans ((Logs.setSt _).trans (hans _ _).logs),
        (hans _ _).same.rxActive.trans hscan.same.rxActive⟩
  | store o handle =>
    have hask := permitted_ask B (c := .write o.si o.path payload payload.length)
      (writable (by decide) hplan.1)
    have hscan := hask.trans (permitted_rescan B _)
    exact extends_ (hscan.trans ((permitted_respond ..).trans (permitted_sendEvent ..)))
  | setDeviceProp text =>
    exact ⟨(Logs.setSt _).trans (permitted_respond ..).logs, (permitted_respond ..).same.rxActive⟩
  | rename o neu => exact extends_ (permitted_renameObj B (writable (by decide) hplan.1) _ o neu)
  | pwrite o off =>
    have hask := permitted_ask B (c := .pwrite o.si o.path off payload payload.length)
      (writable (by decide) hplan.1)
    unfold performRx
    dsimp only
    split
    · exact extends_ (hask.trans ((permitted_rescan B _).trans (permitted_respond ..)))
    · exact extends_ .fail
  | none => exact extends_ (.refl w)

theorem permitted_completeRx (hrx : w.st.rxActive = false)
    (hw : w.st.rxCode = opSetDevicePropValue ∨ w.st.Writable) :
    Logs Permitted w (completeRx B w) ∧ RxPermitted (completeRx B w).st := by
  have hplan : PlannedRx w.st (rxPayload w.st) (planRx w.st (rxPayload w.st)) := .planRx _ _
  unfold completeRx
  dsimp only
  split
  · have h := permitted_performRx B (w := w.setSt { w.st with sendTarget := 0 })
      hplan rfl hw
    exact ⟨(Logs.setSt _).trans h.1, .of_inactive (h.2.trans hrx)⟩
  · have h := permitted_performRx B hplan rfl hw
    exact ⟨h.1, .of_inactive (h.2.trans hrx)⟩

theorem permitted_onOut (hinv : RxPermitted w.st) (chunk : List UInt8) :
    Logs Permitted w (onOut B w chunk) ∧ RxPermitted (onOut B w chunk).st := by
  unfold onOut
  split
  · next hrx =>
    dsimp only
    split
    · have h := permitted_completeRx B
        (w := w.setSt (w.st.fill chunk).endRx) rfl (hinv hrx)
      exact ⟨(Logs.setSt _).trans h.1, h.2⟩
    · exact ⟨.setSt _, hinv⟩
  · next hrx => exact permitted_dispatch B (by simpa using hrx) chunk

/-- A control request opens no data phase and no session. -/
theorem RxPermitted.control {st : MtpState} (hinv : RxPermitted st) (setup : Setup) :
    RxPermitted (st.control setup) := by
  unfold MtpState.control Classes.mtpControl
  dsimp only
  split_ifs
  · exact hinv
  · exact hinv
  · exact .of_inactive rfl
  · exact hinv
  · exact hinv

theorem permitted_act (hinv : RxPermitted w.st) (a : Act β) :
    Logs Permitted w (act B w a) ∧ RxPermitted (act B w a).st := by
  cases a with
  | out chunk => exact permitted_onOut B hinv chunk
  | control setup => exact ⟨.setSt _, hinv.control setup⟩
  | outside disk => exact ⟨⟨⟨[], by simp [act], by simp⟩, id⟩, hinv⟩

/-- In every run, whatever the backend does, the callbacks that change the tree are called only
where the function may be written and a session is open. -/
theorem mutations_permitted (opts : MtpOpts) (disk : β) (acts : List (Act β)) :
    Throughout (next B)
      (fun w => ∀ c st, .called c st ∈ w.log → c.mutates = true →
        st.readOnly = false ∧ st.session ≠ 0)
      (build B opts disk) acts := by
  refine throughout_of_guarded (C := fun _ _ => True)
    (I := fun w => RxPermitted w.st ∧ ∀ e ∈ w.log, Permitted e)
    (fun w hw c st hc => hw.2 _ hc) ?_ ?_ (.of_forall (fun _ _ => trivial) _)
  · intro w a w' hw _ hstep
    obtain ⟨hlogs, hrx⟩ := permitted_act B hw.1 a
    obtain ⟨-, rfl⟩ := next_some B hstep
    exact ⟨hrx, hlogs.all hw.2⟩
  · have hscan := permitted_rescan B ⟨opts.initial, disk, [], false⟩
    exact ⟨.of_inactive hscan.same.rxActive, hscan.logs.all (by simp)⟩

end

end Usbip.Mtp
