import Usbip.Mtp.Log

/-! The course of an action: it calls the backend on the table as it is, and may then rescan. -/

namespace Usbip.Mtp

open Lib Control

variable {β : Type} (B : Backend β)

/-! ### What a command asks of the backend -/

/-- The calls that a copy makes: one directory or file after the other, each under the copy of its
directory. -/
inductive Copies (objs : List Obj) (dsi : Nat) : Obj → CStr → CStr → Call → Prop
  | makeDir (o : Obj) (dest name : CStr) :
    Copies objs dsi o dest name (.makeDir dsi (pathJoin 8192 dest name))
  | read (o : Obj) (dest name : CStr) (off want : Int) :
    Copies objs dsi o dest name (.read o.si o.path off want)
  | write (o : Obj) (dest name : CStr) (data : List UInt8) (len : Int) :
    Copies objs dsi o dest name (.write dsi (pathJoin 8192 dest name) data len)
  | child {o child : Obj} {dest name : CStr} {c : Call} : o.isDir = true → child ∈ objs →
    child.alive = true → child.parent = o.handle → Copies objs dsi child (pathJoin 8192 dest name) child.name c →
    Copies objs dsi o dest name c

/-- The calls that an outcome of a command makes, but for those of a rescan. -/
def Outcome.Makes (objs : List Obj) (c : Call) : Outcome → Prop
  | .answer .. | .dataset _ | .setSession _ | .beginRx | .hang => False
  | .storageInfo si _ => c = .diskUsage si ∨ c = .description si
  | .read o off _ _ => ∃ want, c = .read o.si o.path off want
  | .remove o _ => c = .remove o.si o.path
  | .rename o neu => c = .rename o.si o.path neu
  | .moveAcross o dsi dest => Copies objs dsi o dest o.name c ∨ c = .remove o.si o.path
  | .copy o dsi dest => Copies objs dsi o dest o.name c
  | .truncate o size => c = .truncate o.si o.path size

/-- The calls at the end of a data phase. -/
def RxOutcome.Makes (payload : List UInt8) (c : Call) : RxOutcome → Prop
  | .answer _ | .setDeviceProp _ | .none => False
  | .makeObject isDir si full => c = if isDir then .makeDir si full else .write si full [] 0
  | .store o _ => c = .write o.si o.path payload payload.length
  | .rename o neu => c = .rename o.si o.path neu
  | .pwrite o off => c = .pwrite o.si o.path off payload payload.length

/-! ### The course -/

/-- Nothing happens to the table, and what is logged meets `P`. -/
structure Quiet (P : Effect β → Prop) (w w' : World β) : Prop where
  logs : Logs P w w'
  objs : w'.st.objs = w.st.objs
  nextHandle : w'.st.nextHandle = w.st.nextHandle
  nStores : w'.st.nStores = w.st.nStores

/-- A container goes out. -/
def IsSent : Effect β → Prop
  | .sent .. => True
  | _ => False

/-- A container goes out, or a call of a kind is made on a table. -/
def Calls (objs : List Obj) (made : Call → Prop) : Effect β → Prop
  | .called c st => st.objs = objs ∧ made c
  | .sent .. => True
  | .rescanned .. => False

/-- The table of a rescan: as it was, or with the paths of a renamed object. -/
def Retagged (objs objs' : List Obj) : Prop :=
  objs' = objs ∨ ∃ si old neu, objs' = retagPaths objs si old neu

/-- Calls on the table as it is, and then perhaps a rescan. -/
inductive Course (made : Call → Prop) (w w' : World β) : Prop
  | quiet : Quiet (Calls w.st.objs made) w w' → Course made w w'
  | scan {w1 : World β} {objs : List Obj} : Quiet (Calls w.st.objs made) w w1 →
    Retagged w1.st.objs objs → Quiet IsSent (rescan B (w1.setSt { w1.st with objs })) w' →
    Course made w w'

theorem Logs.mono {P Q : Effect β → Prop} {w w' : World β} (h : Logs P w w')
    (hPQ : ∀ e, P e → Q e) : Logs Q w w' :=
  ⟨h.log.imp fun _ hes => ⟨hes.1, fun e he => hPQ e (hes.2 e he)⟩, h.stuck⟩

namespace Quiet

variable {P Q : Effect β → Prop} {w w' w'' : World β}

theorem refl (w : World β) : Quiet P w w := ⟨.refl w, rfl, rfl, rfl⟩

theorem trans (h1 : Quiet P w w') (h2 : Quiet P w' w'') : Quiet P w w'' :=
  ⟨h1.logs.trans h2.logs, h2.objs.trans h1.objs, h2.nextHandle.trans h1.nextHandle,
    h2.nStores.trans h1.nStores⟩

theorem mono (h : Quiet P w w') (hPQ : ∀ e, P e → Q e) : Quiet Q w w' :=
  ⟨h.logs.mono hPQ, h.objs, h.nextHandle, h.nStores⟩

theorem fail : Quiet P w w.fail := ⟨.fail, rfl, rfl, rfl⟩

theorem ask {c : Call} (hc : P (.called c w.st)) : Quiet P w (w.ask B c).2 :=
  ⟨.ask B hc, rfl, rfl, rfl⟩

/-- A fold of steps that are quiet in every world with the same table. -/
theorem foldl {α : Type*} {f : World β → α → World β} {l : List α} {w : World β}
    (hf : ∀ w', w'.st.objs = w.st.objs → ∀ a ∈ l, Quiet P w' (f w' a)) :
    Quiet P w (l.foldl f w) := by
  induction l generalizing w with
  | nil => exact .refl w
  | cons a l ih =>
    have ha := hf w rfl a List.mem_cons_self
    refine ha.trans (ih fun w' hw' b hb => ?_)
    exact hf w' (hw'.trans ha.objs) b (List.mem_cons_of_mem a hb)

section
variable (hP : ∀ pipe c, P (.sent pipe c))
include hP

theorem sendOne {pipe : Pipe} {type code : UInt16} {txid : UInt32} {payload : List UInt8}
    {plen : Int} : Quiet P w (w.sendOne pipe type code txid payload plen) := by
  unfold World.sendOne
  split
  · exact .refl w
  · split
    · exact .fail
    · exact ⟨.note (hP _ _), rfl, rfl, rfl⟩

theorem respond {rc : UInt16} {txid : UInt32} {values : List UInt32} :
    Quiet P w (w.respond rc txid values) := sendOne hP

theorem sendEvent {code : UInt16} {param : UInt32} : Quiet P w (w.sendEvent code param) :=
  sendOne hP

theorem sendData {code : UInt16} {txid : UInt32} {payload : List UInt8} {len : Int} :
    Quiet P w (w.sendData code txid payload len) := sendOne hP

theorem dataOk {code : UInt16} {txid : UInt32} {payload : List UInt8} :
    Quiet P w (w.dataOk code txid payload) := (sendData hP).trans (respond hP)

end

theorem storageInfo (si : Nat) (hP : P (.called (.diskUsage si) w.st))
    (hP' : P (.called (.description si) w.st)) (id : UInt32) :
    Quiet P w (storageInfo B w si id).2 := by
  have husage : Quiet P w (diskUsage B w si).2 ∧ (diskUsage B w si).2.st = w.st := by
    unfold diskUsage
    cases B.hasDiskUsage with
    | true => exact ⟨.ask B (c := .diskUsage si) hP, rfl⟩
    | false => exact ⟨.refl w, rfl⟩
  have hdesc : ∀ w', w'.st = w.st → Quiet P w' (description B w' si).2 := by
    intro w' hw'
    unfold description
    cases B.hasDescription with
    | true => exact .ask B (c := .description si) (hw' ▸ hP')
    | false => exact .refl w'
  exact husage.1.trans (hdesc _ husage.2)

/-- A copy, on a table that stays as it is. -/
theorem copyTree {objs : List Obj} (hobjs : w.st.objs = objs) (dsi fuel : Nat) (o : Obj)
    (dest name : CStr) :
    Quiet (Calls objs (Copies objs dsi o dest name)) w (copyTree B dsi fuel w o dest name) := by
  induction fuel generalizing w o dest name with
  | zero => exact .fail
  | succ fuel ih =>
    unfold Mtp.copyTree
    dsimp only
    split
    · next hdir =>
      refine (Quiet.ask B ⟨hobjs, .makeDir o dest name⟩).trans
        (.foldl fun w' hw' child hchild => ?_)
      split
      · next hc =>
        rw [Bool.and_eq_true, beq_iff_eq] at hc
        refine (ih (hw'.trans hobjs) child _ _).mono fun e he => ?_
        cases e with
        | called c st => exact ⟨he.1, .child hdir (hobjs ▸ hchild) hc.1 hc.2 he.2⟩
        | sent pipe c => trivial
        | rescanned st disk => exact he
      · exact .refl w'
    · exact (Quiet.ask B ⟨hobjs, .read o dest name 0 _⟩).trans
        (.ask B ⟨hobjs, .write o dest name _ _⟩)

end Quiet

/-! ### Commands and data phases -/

section
variable {w : World β}

theorem course_renameObj (txid : UInt32) (o : Obj) (neu : CStr) :
    Course B (· = .rename o.si o.path neu) w (renameObj B w txid o neu) := by
  have hask : Quiet (Calls w.st.objs (· = .rename o.si o.path neu)) w
      (w.ask B (.rename o.si o.path neu)).2 := .ask B ⟨rfl, rfl⟩
  unfold renameObj
  dsimp only
  split
  · exact .scan hask (.inr ⟨o.si, o.path, neu, rfl⟩) (.respond fun _ _ => trivial)
  · exact .quiet (hask.trans (.respond fun _ _ => trivial))

theorem course_perform (code : UInt16) (txid : UInt32) (p : List UInt32) (outcome : Outcome) :
    Course B (fun c => outcome.Makes w.st.objs c) w (perform B w code txid p outcome) := by
  have sends : ∀ {objs : List Obj} {made : Call → Prop} (pipe c),
      Calls (β := β) objs made (.sent pipe c) := fun _ _ => trivial
  cases outcome with
  | answer rc values => exact .quiet (.respond sends)
  | dataset payload => exact .quiet (.dataOk sends)
  | storageInfo si id =>
    have hask := Quiet.storageInfo B (w := w)
      (P := Calls w.st.objs fun c => c = .diskUsage si ∨ c = .description si) si ⟨rfl, .inl rfl⟩
      ⟨rfl, .inr rfl⟩ id
    exact .quiet (hask.trans (.dataOk sends))
  | setSession id =>
    have hset : Quiet (Calls w.st.objs fun _ => False) w
        (w.setSt { w.st with session := id }) := ⟨.setSt _, rfl, rfl, rfl⟩
    exact .quiet (hset.trans (.respond sends))
  | read o off want counted =>
    have hask : Quiet (Calls w.st.objs fun c => ∃ want, c = .read o.si o.path off want) w
        (readObject B w o off want).2 := .ask B ⟨rfl, _, rfl⟩
    exact .quiet (hask.trans ((Quiet.sendData sends).trans (.respond sends)))
  | remove o handle =>
    have hask : Quiet (Calls w.st.objs (· = .remove o.si o.path)) w
        (w.ask B (.remove o.si o.path)).2 := .ask B ⟨rfl, rfl⟩
    unfold perform
    dsimp only
    split
    · exact .scan hask (.inl rfl) ((Quiet.respond fun _ _ => trivial).trans
        (.sendEvent fun _ _ => trivial))
    · exact .quiet (hask.trans (.respond sends))
  | beginRx => exact .quiet ⟨.setSt _, rfl, rfl, rfl⟩
  | rename o neu => exact course_renameObj B txid o neu
  | moveAcross o dsi dest =>
    have hcopy := (Quiet.copyTree B (w := w) rfl dsi (w.st.objs.length + 1) o dest o.name).mono
      (Q := Calls w.st.objs fun c => (Outcome.moveAcross o dsi dest).Makes w.st.objs c)
      fun e he => by
        cases e with
        | called c st => exact ⟨he.1, .inl he.2⟩
        | sent pipe c => trivial
        | rescanned st disk => exact he
    exact .scan (hcopy.trans (.ask B (c := .remove o.si o.path) ⟨hcopy.objs, .inr rfl⟩)) (.inl rfl)
      (.respond fun _ _ => trivial)
  | copy o dsi dest =>
    exact .scan (Quiet.copyTree B rfl dsi (w.st.objs.length + 1) o dest o.name) (.inl rfl)
      (.respond fun _ _ => trivial)
  | truncate o size =>
    have hask : Quiet (Calls w.st.objs (· = .truncate o.si o.path size)) w
        (w.ask B (.truncate o.si o.path size)).2 := .ask B ⟨rfl, rfl⟩
    unfold perform
    dsimp only
    split
    · split
      · exact .scan hask (.inl rfl) (.respond fun _ _ => trivial)
      · exact .quiet (hask.trans (.respond sends))
    · exact .quiet .fail
  | hang => exact .quiet .fail

theorem quiet_answerMade {P : Effect β → Prop} (hP : ∀ pipe c, P (.sent pipe c)) (w : World β)
    (si : Nat) (handle : UInt32) : Quiet P w (answerMade w si handle) := by
  unfold answerMade
  dsimp only
  split
  · exact (Quiet.respond hP).trans (.sendEvent hP)
  · exact .respond hP

theorem course_performRx (payload : List UInt8) (outcome : RxOutcome) :
    Course B (fun c => outcome.Makes payload c) w (performRx B w payload outcome) := by
  have sends : ∀ {objs : List Obj} {made : Call → Prop} (pipe c),
      Calls (β := β) objs made (.sent pipe c) := fun _ _ => trivial
  cases outcome with
  | answer rc => exact .quiet (.respond sends)
  | makeObject isDir si full =>
    cases isDir with
    | true =>
      have hask : Quiet (Calls w.st.objs (· = .makeDir si full)) w
          ((w.tell B (.makeDir si full)).setSt { w.st with sendTarget := 0 }) :=
        (Quiet.ask B ⟨rfl, rfl⟩).trans ⟨.setSt _, rfl, rfl, rfl⟩
      exact .scan hask (.inl rfl) (quiet_answerMade (fun _ _ => trivial) _ si _)
    | false =>
      have hask : Quiet (Calls w.st.objs (· = .write si full [] 0)) w
          (w.tell B (.write si full [] 0)) := .ask B ⟨rfl, rfl⟩
      refine .scan hask (.inl rfl) (Quiet.trans ?_ (quiet_answerMade (fun _ _ => trivial) _ si _))
      exact ⟨.setSt _, rfl, rfl, rfl⟩
  | store o handle =>
    have hask : Quiet (Calls w.st.objs (· = .write o.si o.path payload payload.length)) w
        (w.tell B (.write o.si o.path payload payload.length)) := .ask B ⟨rfl, rfl⟩
    exact .scan hask (.inl rfl)
      ((Quiet.respond fun _ _ => trivial).trans (.sendEvent fun _ _ => trivial))
  | setDeviceProp text =>
    have hset : Quiet (Calls w.st.objs fun _ => False) w (w.setSt
        { w.st with identity := w.st.identity.setProp (par w.st.rxP 0) text }) :=
      ⟨.setSt _, rfl, rfl, rfl⟩
    exact .quiet (hset.trans (.respond sends))
  | rename o neu => exact course_renameObj B _ o neu
  | pwrite o off =>
    have hask : Quiet (Calls w.st.objs (· = .pwrite o.si o.path off payload payload.length)) w
        (w.tell B (.pwrite o.si o.path off payload payload.length)) := .ask B ⟨rfl, rfl⟩
    unfold performRx
    dsimp only
    split
    · exact .scan hask (.inl rfl) (.respond fun _ _ => trivial)
    · exact .quiet .fail
  | none => exact .quiet (.refl w)

/-- The calls that an action makes in a state, but for those of a rescan. -/
def Act.Makes (dateText : UInt32 → CStr) (st : MtpState) (c : Call) : Act β → Prop
  | .out chunk =>
    if st.rxActive then
      let st := (st.fill chunk).endRx
      (planRx st (rxPayload st)).Makes (rxPayload st) c
    else (plan dateText st (getLe16 (chunk.drop 6)) (paramsOf chunk)).Makes st.objs c
  | .control _ | .outside _ => False

/-- What happens before the rest of a course, without the table. -/
theorem Course.after {made : Call → Prop} {w' w'' : World β}
    (h : Quiet (Calls w.st.objs made) w w') (h' : Course B made w' w'') : Course B made w w'' := by
  have hcalls : Calls (β := β) w'.st.objs made = Calls w.st.objs made := by rw [h.objs]
  cases h' with
  | quiet hq => exact .quiet (h.trans (hcalls ▸ hq))
  | scan hq hobjs hend => exact .scan (h.trans (hcalls ▸ hq)) hobjs hend

theorem Calls.mono {objs : List Obj} {made made' : Call → Prop} (h : ∀ c, made c → made' c)
    (e : Effect β) (he : Calls objs made e) : Calls objs made' e := by
  cases e with
  | called c st => exact ⟨he.1, h c he.2⟩
  | sent pipe c => trivial
  | rescanned st disk => exact he

theorem Course.mono {made made' : Call → Prop} {w' : World β} (h : Course B made w w')
    (hmade : ∀ c, made c → made' c) : Course B made' w w' := by
  cases h with
  | quiet hq => exact .quiet (hq.mono (Calls.mono hmade))
  | scan hq hobjs hend => exact .scan (hq.mono (Calls.mono hmade)) hobjs hend

theorem course_dispatch (chunk : List UInt8) :
    Course B (fun c => (plan B.dateText w.st (getLe16 (chunk.drop 6)) (paramsOf chunk)).Makes
      w.st.objs c) w (dispatch B w chunk) := by
  unfold dispatch
  split
  · exact .quiet (.refl w)
  · dsimp only
    split
    · exact .quiet (.respond fun _ _ => trivial)
    · exact course_perform B _ _ _ _

theorem course_completeRx :
    Course B (fun c => (planRx w.st (rxPayload w.st)).Makes (rxPayload w.st) c) w
      (completeRx B w) := by
  unfold completeRx
  dsimp only
  split
  · have hset : ∀ made, Quiet (Calls w.st.objs made) w
        (w.setSt { w.st with sendTarget := 0 }) := fun _ => ⟨.setSt _, rfl, rfl, rfl⟩
    exact Course.after B (hset _) (course_performRx B _ _)
  · exact course_performRx B _ _

theorem course_onOut (chunk : List UInt8) :
    Course B (fun c => (Act.out (β := β) chunk).Makes B.dateText w.st c) w (onOut B w chunk) := by
  unfold onOut
  cases hrx : w.st.rxActive with
  | true =>
    rw [if_pos rfl]
    dsimp only
    split
    · have hset : ∀ made, Quiet (Calls w.st.objs made) w
          (w.setSt (w.st.fill chunk).endRx) := fun _ => ⟨.setSt _, rfl, rfl, rfl⟩
      refine (Course.after B (hset _) (course_completeRx B)).mono B fun c hc => ?_
      rw [Act.Makes, if_pos hrx]
      exact hc
    · exact .quiet ⟨.setSt _, rfl, rfl, rfl⟩
  | false =>
    rw [if_neg (by decide)]
    refine (course_dispatch B chunk).mono B fun c hc => ?_
    rw [Act.Makes, if_neg (by simp [hrx])]
    exact hc

/-- Every action but what happens outside has a course. -/
theorem course_act {a : Act β} (ha : ∀ disk, a ≠ .outside disk) :
    Course B (fun c => a.Makes B.dateText w.st c) w (act B w a) := by
  cases a with
  | out chunk => exact course_onOut B chunk
  | control setup => exact .quiet ⟨.setSt _, rfl, rfl, rfl⟩
  | outside disk => exact absurd rfl (ha disk)

end

end Usbip.Mtp
