import Usbip.Mtp.Move
import Usbip.Mtp.Props

/-! Calls that may fail.  `attempt` makes a call where the backend allows it and goes on where it
succeeds; a copy that is attempted call by call, and a scan that may not end, say of the backend
alone what becomes of those of the class. -/

namespace Usbip.Mtp

open Lib Control

/-! ### Calls and their results -/

section
variable {β : Type} (B : Backend β)

/-- The backend has the callback, and a length is one: of a buffer, or of the data. -/
def Backend.Allows : Call → Prop
  | .read _ _ _ want => 0 ≤ want
  | .write _ _ data len => 0 ≤ len ∧ len ≤ data.length
  | .pwrite _ _ _ data len => B.hasPwrite = true ∧ 0 ≤ len ∧ len ≤ data.length
  | .truncate .. => B.hasTruncate = true
  | .diskUsage _ => B.hasDiskUsage = true
  | .description _ => B.hasDescription = true
  | _ => True

instance : ∀ c : Call, Decidable (B.Allows c)
  | .read _ _ _ want => inferInstanceAs (Decidable (0 ≤ want))
  | .write _ _ data len => inferInstanceAs (Decidable (0 ≤ len ∧ len ≤ data.length))
  | .pwrite _ _ _ data len =>
    inferInstanceAs (Decidable (B.hasPwrite = true ∧ 0 ≤ len ∧ len ≤ data.length))
  | .truncate .. => inferInstanceAs (Decidable (B.hasTruncate = true))
  | .diskUsage _ => inferInstanceAs (Decidable (B.hasDiskUsage = true))
  | .description _ => inferInstanceAs (Decidable (B.hasDescription = true))
  | .listdir .. | .getInfo .. | .makeDir .. | .remove .. | .rename .. => isTrue trivial

/-- What a call returns: how many bytes it has read, 0 on success, or an error below 0. The others
cannot fail. -/
def Backend.returns (disk : β) : Call → Int
  | .read si path off want => ReadResult.rc (B.call disk (.read si path off want)).1
  | .write si path data len => (B.call disk (.write si path data len)).1
  | .makeDir si path => (B.call disk (.makeDir si path)).1
  | .remove si path => (B.call disk (.remove si path)).1
  | .rename si path newpath => (B.call disk (.rename si path newpath)).1
  | .pwrite si path off data len => (B.call disk (.pwrite si path off data len)).1
  | .truncate si path size => (B.call disk (.truncate si path size)).1
  | _ => 0

def Call.isRead : Call → Bool
  | .read .. => true
  | _ => false

/-- A call succeeds: a read with any count of bytes, the others with 0. -/
def Backend.Succeeds (disk : β) (c : Call) : Prop :=
  if c.isRead then 0 ≤ B.returns disk c else B.returns disk c = 0

instance (disk : β) (c : Call) : Decidable (B.Succeeds disk c) :=
  inferInstanceAs (Decidable (if c.isRead then 0 ≤ B.returns disk c else B.returns disk c = 0))

/-- All calls succeed, each on what the calls before it have left. -/
def Backend.AllSucceed : β → List Call → Prop
  | _, [] => True
  | disk, c :: cs => B.Succeeds disk c ∧ Backend.AllSucceed (B.call disk c).2 cs

/-- How many bytes of a file the backend has handed over, or taken into a part of one. -/
def Backend.moved (disk : β) : Call → Nat
  | .read si path off want => (B.returns disk (.read si path off want)).toNat
  | .pwrite si path off data len =>
    if B.returns disk (.pwrite si path off data len) = 0 then len.toNat else 0
  | _ => 0

def Backend.movedBy : β → List Call → Nat
  | _, [] => 0
  | disk, c :: cs => B.moved disk c + Backend.movedBy (B.call disk c).2 cs

/-- What a call leaves, where the backend allows it and it succeeds. -/
def Backend.attempt (disk : β) (c : Call) : Option β :=
  if B.Allows c ∧ B.Succeeds disk c then some (B.call disk c).2 else none

end

/-! ### What is read, scanned and copied -/

/-- How many bytes `read_object` wants. -/
def readWant (o : Obj) (off want : Int) : Int :=
  let avail := max 0 (toInt64 (toInt64 o.size.toNat - off))
  if want < 0 ∨ want > avail then avail else want

def readCall (o : Obj) (off want : Int) : Call :=
  .read o.si o.path off (toInt32 (readWant o off want))

section
variable {β : Type} (B : Backend β)

/-- What `read_object` gets. -/
def fetched (disk : β) (o : Obj) (off want : Int) : ReadResult :=
  let r : ReadResult := (B.call disk (.read o.si o.path off (toInt32 (readWant o off want)))).1
  ⟨r.rc, r.data.take (readWant o off want).toNat⟩

/-- What a scan of a directory leaves, if it ends, at most `fuel` directories deep. -/
def scanned (si : Nat) : Nat → β → CStr → Option β
  | 0, _, _ => none
  | fuel + 1, disk, relpath =>
    let names : List CStr := (B.call disk (.listdir si relpath)).1
    (sortNames names).foldlM (fun disk name =>
      let full := pathJoin 4096 relpath name
      let found : Option Info := (B.call disk (.getInfo si full)).1
      let disk := (B.call disk (.getInfo si full)).2
      if found.any Info.isDir then scanned si fuel disk full else some disk)
      (B.call disk (.listdir si relpath)).2

/-- What a rescan leaves, if it ends. -/
def rescanned (nStores : Nat) (disk : β) : Option β :=
  (List.range nStores).foldlM (fun disk si => scanned B si B.depth disk []) disk

/-- A copy ends, at most `fuel` objects deep. -/
def copyEnds (objs : List Obj) : Nat → Obj → Bool
  | 0, _ => false
  | fuel + 1, o =>
    !o.isDir || (objs.filter fun c => c.alive && c.parent == o.handle).all (copyEnds objs fuel)

/-- What a copy leaves where all its calls are allowed and succeed, at most `fuel` objects deep. -/
def copied (objs : List Obj) (dsi : Nat) : Nat → β → Obj → CStr → CStr → Option β
  | 0, disk, _, _, _ => some disk
  | fuel + 1, disk, o, dest, name =>
    let neu := pathJoin 8192 dest name
    if o.isDir then
      (B.attempt disk (.makeDir dsi neu)).bind fun disk =>
        (objs.filter fun c => c.alive && c.parent == o.handle).foldlM
          (fun disk c => copied objs dsi fuel disk c neu c.name) disk
    else
      let r := fetched B disk o 0 (-1)
      (B.attempt disk (readCall o 0 (-1))).bind fun disk =>
        B.attempt disk (.write dsi neu (r.data.take r.rc.toNat) r.rc)

end

/-! ### What is called and what is sent -/

def Effect.sent? {β : Type} : Effect β → Option (Pipe × Container)
  | .sent pipe c => some (pipe, c)
  | _ => none

/-- The calls and the containers that have led from one world to another, which goes on. -/
structure Runs {β : Type} (B : Backend β) (w w' : World β) (cs : List Call)
    (sent : List (Pipe × Container)) : Prop where
  log : ∃ es, w'.log = w.log ++ es ∧ es.filterMap Effect.call? = cs ∧
    es.filterMap Effect.sent? = sent
  disk : w'.disk = B.after w.disk cs
  stuck : w'.stuck = w.stuck
  small : ∀ pipe c, (pipe, c) ∈ sent → c.payload.length < 2 ^ 31 - 12

section
variable {β : Type} {B : Backend β} {w w' w'' : World β} {cs cs' : List Call}
  {l l' : List (Pipe × Container)} {disk : β}

namespace Runs

theorem refl (w : World β) : Runs B w w [] [] := ⟨⟨[], by simp, rfl, rfl⟩, rfl, rfl, by simp⟩

theorem trans (h : Runs B w w' cs l) (h' : Runs B w' w'' cs' l') :
    Runs B w w'' (cs ++ cs') (l ++ l') := by
  obtain ⟨es, hes, hcs, hl⟩ := h.log
  obtain ⟨es', hes', hcs', hl'⟩ := h'.log
  refine ⟨⟨es ++ es', by rw [hes', hes, List.append_assoc], ?_, ?_⟩, ?_, h'.stuck.trans h.stuck,
    fun pipe c hc => ?_⟩
  · rw [List.filterMap_append, hcs, hcs']
  · rw [List.filterMap_append, hl, hl']
  · rw [h'.disk, h.disk, after_append]
  · exact (List.mem_append.mp hc).elim (h.small pipe c) (h'.small pipe c)

theorem ask (w : World β) (c : Call) : Runs B w (w.ask B c).2 [c] [] :=
  ⟨⟨_, rfl, rfl, rfl⟩, rfl, rfl, by simp⟩

theorem setSt (w : World β) (st : MtpState) : Runs B w (w.setSt st) [] [] :=
  ⟨⟨[], by simp [World.setSt], rfl, rfl⟩, rfl, rfl, by simp⟩

theorem sent (w : World β) (pipe : Pipe) {c : Container} (h : c.payload.length < 2 ^ 31 - 12) :
    Runs B w (w.note (.sent pipe c)) [] [(pipe, c)] := by
  refine ⟨⟨_, rfl, rfl, rfl⟩, rfl, rfl, fun pipe' c' hc => ?_⟩
  obtain ⟨rfl, rfl⟩ := Prod.mk.inj (List.mem_singleton.mp hc)
  exact h

theorem respond (w : World β) (rc : UInt16) (txid : UInt32) (values : List UInt32) :
    Runs B w (w.respond rc txid values) []
      [(.bulkIn, ⟨ctResponse, rc, txid, (values.take 5).flatMap u32le⟩)] := by
  rw [World.respond_eq]
  have hwords := length_flatMap_const u32le_length (values.take 5)
  have htake := List.length_take_le 5 values
  refine sent w .bulkIn ?_
  show ((values.take 5).flatMap u32le).length < _
  omega

theorem sendEvent (w : World β) (code : UInt16) (param : UInt32) :
    Runs B w (w.sendEvent code param) [] [(.interrupt, ⟨ctEvent, code, all, u32le param⟩)] :=
  sent w .interrupt (show 4 < _ by decide)

theorem sendData (w : World β) (code : UInt16) (txid : UInt32) {payload : List UInt8} {n : Int}
    (h0 : 0 ≤ n) (hle : n ≤ payload.length) (hlt : n < 2 ^ 31 - 12) :
    Runs B w (w.sendData code txid payload n) []
      [(.bulkIn, ⟨ctData, code, txid, payload.take n.toNat⟩)] := by
  rw [World.sendData, World.sendOne, if_neg (by omega), if_neg (by omega)]
  refine sent w .bulkIn ?_
  show (payload.take n.toNat).length < _
  rw [List.length_take]
  omega

/-- Calls that send nothing. -/
theorem of_replays (hr : Replays B w w' cs) (hl : Logs (fun e => e.sent? = none) w w')
    (hstuck : w'.stuck = w.stuck) : Runs B w w' cs [] := by
  obtain ⟨es, hes, hcs⟩ := hr.calls
  obtain ⟨es', hes', hnone⟩ := hl.log
  obtain rfl := List.append_cancel_left (hes.symm.trans hes')
  exact ⟨⟨es, hes, hcs, List.filterMap_eq_nil_iff.mpr hnone⟩, hr.disk, hstuck, by simp⟩

theorem replays (h : Runs B w w' cs l) : Replays B w w' cs :=
  ⟨h.log.imp fun _ hes => ⟨hes.1, hes.2.1⟩, h.disk⟩

theorem mem_log (h : Runs B w w' cs l) (pipe : Pipe) (c : Container) :
    .sent pipe c ∈ w'.log.drop w.log.length ↔ (pipe, c) ∈ l := by
  obtain ⟨es, hes, -, hl⟩ := h.log
  rw [hes, List.drop_left, ← hl, List.mem_filterMap]
  constructor
  · exact fun he => ⟨_, he, rfl⟩
  · rintro ⟨e, he, hsome⟩
    cases e with
    | called c' st => cases hsome
    | rescanned st disk => cases hsome
    | sent pipe' c' =>
      obtain ⟨rfl, rfl⟩ := Prod.mk.inj (Option.some.inj hsome)
      exact he

end Runs

end

/-! ### Rescans and copies -/

/-- What a scan asks. -/
def Call.isLookup : Call → Bool
  | .listdir .. | .getInfo .. => true
  | _ => false

section
variable {β : Type} {B : Backend β} {w w' w'' : World β} {cs cs' : List Call}
  {l l' : List (Pipe × Container)} {disk disk' : β}

theorem allows_lookup {c : Call} (h : c.isLookup = true) : B.Allows c := by
  cases c <;> trivial

theorem succeeds_lookup {c : Call} (h : c.isLookup = true) : B.Succeeds disk c := by
  cases c <;> first | rfl | cases h

theorem Backend.allSucceed_append :
    B.AllSucceed disk (cs ++ cs') ↔ B.AllSucceed disk cs ∧ B.AllSucceed (B.after disk cs) cs' := by
  induction cs generalizing disk with
  | nil => exact (and_iff_right trivial).symm
  | cons c cs ih => exact (and_congr_right fun _ => ih).trans and_assoc.symm

theorem Backend.allSucceed_of_forall (h : ∀ c ∈ cs, ∀ disk, B.Succeeds disk c) :
    B.AllSucceed disk cs := by
  induction cs generalizing disk with
  | nil => trivial
  | cons c cs ih =>
    obtain ⟨hc, hcs⟩ := List.forall_mem_cons.mp h
    exact ⟨hc disk, ih hcs⟩

/-- Attempts that all come off are calls that are allowed and succeed. -/
theorem foldlM_attempt :
    cs.foldlM B.attempt disk = some disk' ↔
      (∀ c ∈ cs, B.Allows c) ∧ B.AllSucceed disk cs ∧ B.after disk cs = disk' := by
  induction cs generalizing disk with
  | nil =>
    rw [List.foldlM_nil]
    exact ⟨fun h => ⟨by simp, trivial, Option.some.inj h⟩, fun h => congrArg some h.2.2⟩
  | cons c cs ih =>
    rw [List.foldlM_cons, List.forall_mem_cons, Backend.attempt]
    by_cases hc : B.Allows c ∧ B.Succeeds disk c
    · rw [if_pos hc]
      refine ih.trans ⟨fun h => ?_, fun h => ?_⟩
      · exact ⟨⟨hc.1, h.1⟩, ⟨hc.2, h.2.1⟩, h.2.2⟩
      · exact ⟨h.1.2, h.2.1.2, h.2.2⟩
    · rw [if_neg hc]
      refine ⟨fun h => ?_, fun h => absurd ⟨h.1.1, h.2.1.1⟩ hc⟩
      cases h

theorem foldlM_attempt_isSome :
    (cs.foldlM B.attempt disk).isSome ↔ (∀ c ∈ cs, B.Allows c) ∧ B.AllSucceed disk cs := by
  rw [Option.isSome_iff_exists]
  constructor
  · rintro ⟨disk', h⟩
    obtain ⟨hallows, hall, -⟩ := foldlM_attempt.mp h
    exact ⟨hallows, hall⟩
  · exact fun h => ⟨_, foldlM_attempt.mpr ⟨h.1, h.2, rfl⟩⟩

/-- What follows some calls is attempted on what they have left. -/
theorem attempts_append {f : β → Option β} (h : Replays B w w' cs)
    (hf : cs'.foldlM B.attempt w'.disk = f w'.disk) :
    (cs ++ cs').foldlM B.attempt w.disk = (cs.foldlM B.attempt w.disk).bind f := by
  rw [List.foldlM_append]
  refine Option.bind_congr fun disk hdisk => ?_
  rw [← (foldlM_attempt.mp hdisk).2.2, ← h.disk, hf]

theorem attempts_singleton (disk : β) (c : Call) :
    [c].foldlM B.attempt disk = B.attempt disk c := by
  rw [List.foldlM_cons]
  exact Option.bind_fun_some _

/-! ### Where a scan ends -/

/-- What leads from one world to another leaves the backend as it says, or gets stuck. -/
structure EndsIn (w w' : World β) (end? : Option β) : Prop where
  mono : w.stuck = true → w'.stuck = true
  stuck : end? = none → w'.stuck = true
  goesOn : ∀ disk, end? = some disk → w'.stuck = w.stuck ∧ w'.disk = disk

namespace EndsIn

variable {end? : Option β}

theorem bind {f : β → Option β} (h : EndsIn w w' end?) (h' : EndsIn w' w'' (f w'.disk)) :
    EndsIn w w'' (end?.bind f) := by
  cases end? with
  | none =>
    exact ⟨h'.mono ∘ h.mono, fun _ => h'.mono (h.stuck rfl), fun _ hc => by cases hc⟩
  | some disk =>
    obtain ⟨hstuck, rfl⟩ := h.goesOn disk rfl
    refine ⟨h'.mono ∘ h.mono, h'.stuck, fun disk' hd => ?_⟩
    rw [← hstuck]
    exact h'.goesOn disk' hd

theorem of_eq (hstuck : w'.stuck = w.stuck) : EndsIn w w' (some w'.disk) :=
  ⟨hstuck.trans, by simp, fun _ hd => ⟨hstuck, Option.some.inj hd⟩⟩

theorem foldl {α : Type*} {f : World β → α → World β} {g : β → α → Option β}
    (hf : ∀ w a, EndsIn w (f w a) (g w.disk a)) (as : List α) (w : World β) :
    EndsIn w (as.foldl f w) (as.foldlM g w.disk) := by
  induction as generalizing w with
  | nil => exact .of_eq rfl
  | cons a as ih => exact (hf w a).bind (f := fun disk => as.foldlM g disk) (ih (f w a))

theorem scanName {scan : World β → CStr → UInt32 → World β} {g : β → CStr → Option β}
    (hscan : ∀ w path handle, EndsIn w (scan w path handle) (g w.disk path)) (si : Nat) (dir : CStr)
    (parent : UInt32) (w : World β) (name : CStr) :
    EndsIn w (scanName B scan si dir parent w name)
      (if Option.any Info.isDir (B.call w.disk (.getInfo si (pathJoin 4096 dir name))).1 then
        g (B.call w.disk (.getInfo si (pathJoin 4096 dir name))).2 (pathJoin 4096 dir name)
      else some (B.call w.disk (.getInfo si (pathJoin 4096 dir name))).2) := by
  have hask : EndsIn w (w.ask B (.getInfo si (pathJoin 4096 dir name))).2
    (some (B.call w.disk (.getInfo si (pathJoin 4096 dir name))).2) := .of_eq rfl
  unfold Mtp.scanName
  dsimp only
  split
  · next hfound =>
    rw [show Option.any Info.isDir (B.call w.disk (.getInfo si (pathJoin 4096 dir name))).1 = false
      from congrArg (Option.any Info.isDir) hfound, if_neg Bool.false_ne_true]
    exact hask
  · next info hfound =>
    rw [show Option.any Info.isDir (B.call w.disk (.getInfo si (pathJoin 4096 dir name))).1 =
      info.isDir from congrArg (Option.any Info.isDir) hfound]
    have hup : EndsIn w ((w.ask B (.getInfo si (pathJoin 4096 dir name))).2.upsert si
        (pathJoin 4096 dir name) name parent info).2
      (some (B.call w.disk (.getInfo si (pathJoin 4096 dir name))).2) := .of_eq rfl
    split
    · exact hup.bind (f := fun disk => g disk (pathJoin 4096 dir name)) (hscan _ _ _)
    · exact hup

theorem scanDir (si fuel : Nat) (w : World β) (dir : CStr) (parent : UInt32) :
    EndsIn w (scanDir B si fuel w dir parent) (scanned B si fuel w.disk dir) := by
  induction fuel generalizing w dir parent with
  | zero => exact ⟨fun _ => rfl, fun _ => rfl, by simp [scanned]⟩
  | succ fuel ih =>
    have hlist : EndsIn w (w.ask B (.listdir si dir)).2 (some (w.ask B (.listdir si dir)).2.disk) :=
      .of_eq rfl
    exact hlist.bind (f := fun disk => List.foldlM _ disk _)
      (foldl (fun w name => scanName (g := scanned B si fuel)
        (fun w path handle => ih w path handle) si dir parent w name) _ _)

theorem rescan (w : World β) : EndsIn w (rescan B w) (rescanned B w.st.nStores w.disk) := by
  have hstores := foldl (g := fun disk si => scanned B si B.depth disk [])
    (fun w si => scanDir si B.depth w [] 0) (List.range w.st.nStores)
    (w.setSt { w.st with objs := w.st.objs.map fun o => { o with alive := false } })
  exact ⟨hstores.mono, hstores.stuck, hstores.goesOn⟩

end EndsIn

namespace Runs

theorem rescan {w : World β} (hends : (rescanned B w.st.nStores w.disk).isSome) :
    ∃ cs, Runs B w (rescan B w) cs [] ∧ ∀ c ∈ cs, c.isLookup = true := by
  obtain ⟨disk, hdisk⟩ := Option.isSome_iff_exists.mp hends
  have hstuck := ((EndsIn.rescan (B := B) w).goesOn disk hdisk).1
  obtain ⟨cs, hr, -⟩ := Asks.rescan (B := B) w
  have hsilent := (Extends.rescan (P := fun e => e.sent? = none) (w := w) B (fun _ _ _ => rfl)
    (fun _ _ _ => rfl) rfl).logs
  refine ⟨cs, .of_replays hr hsilent hstuck, fun c hc => ?_⟩
  have hlookup := (Extends.rescan (P := fun e => ∀ c, e.call? = some c → c.isLookup = true)
    (w := w) B (fun _ _ _ c hc => Option.some.inj hc ▸ rfl)
    (fun _ _ _ c hc => Option.some.inj hc ▸ rfl) (by simp [Effect.call?])).logs
  obtain ⟨es, hes, hcs⟩ := hr.calls
  obtain ⟨es', hes', hall⟩ := hlookup.log
  obtain rfl := List.append_cancel_left (hes.symm.trans hes')
  rw [← hcs, List.mem_filterMap] at hc
  obtain ⟨e, he, hsome⟩ := hc
  exact hall e he c hsome

end Runs

/-! ### Where a copy ends, and what it attempts -/

/-- A piece of a copy: the table stays, some calls are attempted, and it may not end. -/
structure CopiesTo (B : Backend β) (objs : List Obj) (w w' : World β) (end? : Option β)
    (ends : Bool) : Prop where
  objs : w'.st.objs = objs
  calls : ∃ cs, Replays B w w' cs ∧ cs.foldlM B.attempt w.disk = end?
  stuck : w'.stuck = (w.stuck || !ends)

/-- The copies of the children of a directory, one after the other. -/
theorem copiesTo_children (copy : World β → Obj → World β) (attempt : β → Obj → Option β)
    (ends : Obj → Bool) (handle : UInt32) {objs : List Obj}
    (hcopy : ∀ w c, w.st.objs = objs → CopiesTo B objs w (copy w c) (attempt w.disk c) (ends c))
    (children : List Obj) (hw : w.st.objs = objs) :
    CopiesTo B objs w
      (children.foldl (fun w c => if c.alive && c.parent == handle then copy w c else w) w)
      ((children.filter fun c => c.alive && c.parent == handle).foldlM attempt w.disk)
      ((children.filter fun c => c.alive && c.parent == handle).all ends) := by
  induction children generalizing w with
  | nil => exact ⟨hw, ⟨[], .refl w, rfl⟩, by simp⟩
  | cons o children ih =>
    rw [List.foldl_cons, List.filter_cons]
    by_cases hchild : (o.alive && o.parent == handle) = true
    · rw [if_pos hchild, if_pos hchild, List.foldlM_cons, List.all_cons]
      obtain ⟨hobjs, ⟨cs, hr, hcs⟩, hstuck⟩ := hcopy w o hw
      obtain ⟨hend, ⟨cs', hr', hcs'⟩, hstuck'⟩ := ih hobjs
      refine ⟨hend, ⟨cs ++ cs', hr.trans hr', ?_⟩, ?_⟩
      · rw [attempts_append (f := fun disk => List.foldlM attempt disk _) hr hcs', hcs]
        rfl
      · rw [hstuck', hstuck, Bool.not_and, Bool.or_assoc]
    · rw [if_neg hchild, if_neg hchild]
      exact ih hw

/-- A copy is attempted call by call. -/
theorem copiesTo_copyTree {objs : List Obj} (hw : w.st.objs = objs) (dsi fuel : Nat) (o : Obj)
    (dest name : CStr) :
    CopiesTo B objs w (copyTree B dsi fuel w o dest name)
      (copied B objs dsi fuel w.disk o dest name) (copyEnds objs fuel o) := by
  induction fuel generalizing w o dest name with
  | zero =>
    refine ⟨hw, ⟨[], ⟨⟨[], by simp [copyTree, World.fail], rfl⟩, rfl⟩, rfl⟩, ?_⟩
    rw [copyEnds, Bool.not_false, Bool.or_true]
    rfl
  | succ fuel ih =>
    rw [copyTree, copied, copyEnds]
    dsimp only
    split
    · next hdir =>
      have hmake : Replays B w (w.tell B (.makeDir dsi (pathJoin 8192 dest name)))
          [.makeDir dsi (pathJoin 8192 dest name)] := .ask w _
      have hobjs : (w.tell B (.makeDir dsi (pathJoin 8192 dest name))).st.objs = objs := hw
      obtain ⟨hend, ⟨cs, hr, hcs⟩, hstuck⟩ := copiesTo_children (B := B)
        (fun w c => copyTree B dsi fuel w c (pathJoin 8192 dest name) c.name)
        (fun disk c => copied B objs dsi fuel disk c (pathJoin 8192 dest name) c.name)
        (copyEnds objs fuel) o.handle (fun w c hw => ih hw c _ c.name)
        (w.tell B (.makeDir dsi (pathJoin 8192 dest name))).st.objs hobjs
      rw [hobjs] at hcs hstuck
      refine ⟨hend, ⟨_, hmake.trans hr, ?_⟩, ?_⟩
      · rw [attempts_append (f := fun disk => List.foldlM _ disk _) hmake hcs, attempts_singleton]
      · rw [copyChildren, hobjs, hdir, Bool.not_true, Bool.false_or]
        exact hstuck
    · next hfile =>
      have hread : readObject B w o 0 (-1) =
          (fetched B w.disk o 0 (-1), w.tell B (readCall o 0 (-1))) := rfl
      have hask : Replays B w (w.tell B (readCall o 0 (-1))) [readCall o 0 (-1)] := .ask w _
      rw [hread]
      dsimp only
      generalize fetched B w.disk o 0 (-1) = r
      refine ⟨hw, ⟨_, hask.trans (.ask _ (.write dsi (pathJoin 8192 dest name)
        (r.data.take r.rc.toNat) r.rc)), ?_⟩, ?_⟩
      · rw [attempts_append (f := fun disk => B.attempt disk _) hask (attempts_singleton _ _),
          attempts_singleton]
      · rw [eq_false_of_ne_true hfile, Bool.not_false, Bool.true_or, Bool.not_true, Bool.or_false]
        rfl

end

end Usbip.Mtp
