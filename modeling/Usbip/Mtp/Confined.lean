import Usbip.Mtp.Mirror

/-! The paths that the class passes to its backend.  They are paths of the table, or one component
below one; only a copy goes deeper, by the names of the table. -/

namespace Usbip.Mtp

open Lib Control

/-- The name of one entry of a directory. -/
def ProperName (n : CStr) : Prop := Plain slash n ∧ n ≠ ascii "." ∧ n ≠ ascii ".."

instance (n : CStr) : Decidable (ProperName n) := inferInstanceAs (Decidable (_ ∧ _ ∧ _))

/-- A chain of proper names, from the root of a store. -/
inductive Inside : CStr → Prop
  | root : Inside []
  | sub {dir n : CStr} : Inside dir → ProperName n → Inside (joinPath slash dir n)

/-- The path arguments of a call. -/
def Call.paths : Call → List CStr
  | .listdir _ p | .getInfo _ p | .read _ p _ _ | .write _ p _ _ | .makeDir _ p | .remove _ p
  | .pwrite _ p _ _ _ | .truncate _ p _ => [p]
  | .rename _ p q => [p, q]
  | .diskUsage _ | .description _ => []

/-- The root of a store, or the path of an object. -/
def Known (objs : List Obj) (p : CStr) : Prop := p = [] ∨ ∃ o ∈ objs, o.alive = true ∧ o.path = p

instance (objs : List Obj) (p : CStr) : Decidable (Known objs p) :=
  inferInstanceAs (Decidable (_ ∨ _))

/-- Such a path, or one that is joined with one name. -/
inductive Reached (objs : List Obj) : CStr → Prop
  | known {p : CStr} : Known objs p → Reached objs p
  | entry {size : Nat} {dir n : CStr} : 4096 ≤ size → Known objs dir → ProperName n →
      Reached objs (pathJoin size dir n)

/-- The path of the copy of an object: that of the object itself, and below a directory the path of
the copy of the directory with one more name. -/
inductive CopyPath (objs : List Obj) : Obj → CStr → Prop
  | top {o : Obj} {dest : CStr} : o ∈ objs → o.alive = true → Known objs dest →
      ProperName o.name → CopyPath objs o (pathJoin 8192 dest o.name)
  | deeper {o child : Obj} {p : CStr} : CopyPath objs o p → o.isDir = true → child ∈ objs →
      child.alive = true → child.parent = o.handle → ProperName child.name →
      CopyPath objs child (pathJoin 8192 p child.name)

/-- The paths of a call stay with the table. A copy also makes what is below it. -/
inductive Call.Confined (copies : Bool) (objs : List Obj) : Call → Prop
  | reached {c : Call} : (∀ p ∈ c.paths, Reached objs p) → Confined copies objs c
  | copyDir {o : Obj} {si : Nat} {p : CStr} : copies = true → CopyPath objs o p →
      Confined copies objs (.makeDir si p)
  | copyFile {o : Obj} {si : Nat} {p : CStr} {data : List UInt8} {len : Int} : copies = true →
      CopyPath objs o p → Confined copies objs (.write si p data len)

/-- What a backend lists. -/
def listed {β : Type} (B : Backend β) (disk : β) (si : Nat) (path : CStr) : List CStr :=
  (B.call disk (.listdir si path)).1

/-- Every name that a backend lists is proper. -/
def ListsProper {β : Type} (B : Backend β) : Prop :=
  ∀ disk si path, ∀ n ∈ listed B disk si path, ProperName n

/-- Every path that a backend lists fits the field of an object. -/
def ListsShort {β : Type} (B : Backend β) : Prop :=
  ∀ disk si path, ∀ n ∈ listed B disk si path, (joinPath slash path n).length < 4096

/-- The names of a table are proper, and its paths are chains of such names where they fit. -/
structure Sound {β : Type} (B : Backend β) (objs : List Obj) : Prop where
  names : ∀ o ∈ objs, ProperName o.name
  inside : ListsShort B → ∀ o ∈ objs, o.alive = true → Inside o.path

/-! ### Names and paths -/

theorem ProperName.cut {n : CStr} (h : ProperName n) : ProperName (snprintf 256 n) := by
  by_cases hlen : n.length < 256
  · rwa [snprintf_of_lt hlen]
  · have hcut : (snprintf 256 n).length = 255 := by
      rw [snprintf, List.length_take]
      omega
    refine ⟨⟨?_, fun hc => h.1.2 (List.mem_of_mem_take hc)⟩, ?_, ?_⟩ <;> intro hc <;>
      rw [hc] at hcut <;> exact absurd hcut (by decide)

/-- A path that is cut, joined with a name and cut again, is a longer path cut once. -/
theorem pathJoin_snprintf {size : Nat} (q n : CStr) (h : 1 < size) :
    pathJoin size (snprintf size q) n = snprintf size q ∨
      pathJoin size (snprintf size q) n = snprintf size (joinPath slash q n) := by
  rw [pathJoin_eq]
  by_cases hlen : q.length < size
  · rw [snprintf_of_lt hlen]
    exact .inr rfl
  · have hcut : (snprintf size q).length = size - 1 := by
      rw [snprintf, List.length_take]
      omega
    have hne : snprintf size q ≠ [] := List.ne_nil_of_length_pos (by omega)
    rw [joinPath_of_ne_nil hne]
    exact .inl (List.take_left' hcut)

/-- What is reached by a join is known, or its directory is. -/
theorem Reached.of_join {objs : List Obj} (dir n : CStr) (hn : slash ∉ n)
    (hlen : (joinPath slash dir n).length < 4095) (h : Reached objs (joinPath slash dir n)) :
    Known objs (joinPath slash dir n) ∨ Known objs dir ∧ ProperName n := by
  generalize hp : joinPath slash dir n = p at h hlen
  cases h with
  | known h => exact .inl h
  | @entry size dir' n' hsize hdir hn' =>
    rw [pathJoin_eq, snprintf] at hp hlen
    rw [List.length_take] at hlen
    rw [List.take_of_length_le (by omega)] at hp
    obtain ⟨rfl, rfl⟩ := joinPath_injective hn hn'.1.2 hp
    exact .inr ⟨hdir, hn'⟩

section
variable {objs : List Obj} {p : CStr}

theorem Known.inside (hobjs : ∀ o ∈ objs, o.alive = true → Inside o.path) (h : Known objs p) :
    Inside p := by
  rcases h with rfl | ⟨o, ho, halive, rfl⟩
  · exact .root
  · exact hobjs o ho halive

theorem Reached.inside (hobjs : ∀ o ∈ objs, o.alive = true → Inside o.path)
    (h : Reached objs p) : ∃ q, Inside q ∧ p <+: q := by
  cases h with
  | known h => exact ⟨p, h.inside hobjs, List.prefix_rfl⟩
  | entry _ hdir hn =>
    rw [pathJoin_eq]
    exact ⟨_, .sub (hdir.inside hobjs) hn, List.take_prefix _ _⟩

theorem CopyPath.inside {o : Obj} (hobjs : ∀ o ∈ objs, o.alive = true → Inside o.path)
    (h : CopyPath objs o p) : ∃ q, Inside q ∧ p = snprintf 8192 q := by
  induction h with
  | top _ _ hdest hn => exact ⟨_, .sub (hdest.inside hobjs) hn, pathJoin_eq ..⟩
  | @deeper o child p _ _ _ _ _ hn ih =>
    obtain ⟨q, hq, rfl⟩ := ih
    rcases pathJoin_snprintf q child.name (by decide : 1 < 8192) with heq | heq
    · exact ⟨q, hq, heq⟩
    · exact ⟨_, .sub hq hn, heq⟩

/-- The paths of a call are chains of proper names, but for what a buffer cuts off at the end. -/
theorem Call.Confined.inside {copies : Bool} {c : Call}
    (hobjs : ∀ o ∈ objs, o.alive = true → Inside o.path) (h : c.Confined copies objs) :
    ∀ p ∈ c.paths, ∃ q, Inside q ∧ p <+: q := by
  cases h with
  | reached h => exact fun p hp => (h p hp).inside hobjs
  | copyDir _ h | copyFile _ h =>
    intro p hp
    obtain rfl := List.mem_singleton.mp hp
    obtain ⟨q, hq, rfl⟩ := h.inside hobjs
    exact ⟨q, hq, List.take_prefix _ _⟩

end

/-! ### The scan -/

/-- A call stays with a sound table. -/
def Stays {β : Type} (B : Backend β) (copies : Bool) : Effect β → Prop
  | .called c st => c.Confined copies st.objs ∧ Sound B st.objs
  | _ => True

section
variable {objs : List Obj} {nextHandle : UInt32} {si : Nat} {full name : CStr} {parent : UInt32}
  {info : Info}

/-- An upsert keeps the paths of the objects, and adds its own. -/
theorem Known.objUpsert {p : CStr} (h : Known objs p) :
    Known (objUpsert objs nextHandle si full name parent info).1 p := by
  rcases h with rfl | ⟨o, ho, halive, rfl⟩
  · exact .inl rfl
  · right
    unfold Mtp.objUpsert
    cases hfound : objByPath objs si full with
    | none => exact ⟨o, List.mem_append_left _ ho, halive, rfl⟩
    | some a =>
      obtain ⟨before, after, hobjs, hnew⟩ :=
        exists_modifyFirst (fun o : Obj => o.fill name parent info) hfound
      dsimp only
      rw [hnew]
      rw [hobjs] at ho
      rcases List.mem_append.mp ho with ho | ho
      · exact ⟨o, List.mem_append_left _ ho, halive, rfl⟩
      · rcases List.mem_cons.mp ho with rfl | ho
        · exact ⟨o.fill name parent info, List.mem_append_right _ List.mem_cons_self, rfl, rfl⟩
        · exact ⟨o, List.mem_append_right _ (List.mem_cons_of_mem _ ho), halive, rfl⟩

theorem known_upserted (hfull : full.length < 4096) :
    Known (objUpsert objs nextHandle si full name parent info).1 full := by
  have hfound := objByPath_objUpsert objs nextHandle si name parent info hfull si full
  rw [if_pos ⟨rfl, rfl⟩] at hfound
  exact .inr ⟨_, (objByPath_some hfound).1, rfl, (objByPath_some hfound).2.2⟩

end

section
variable {β : Type} {B : Backend β} {copies : Bool} {w w' w'' : World β}

/-- A scan stays with the table, which grows. -/
structure Grows (B : Backend β) (copies : Bool) (w w' : World β) : Prop where
  logs : Logs (Stays B copies) w w'
  sound : Sound B w'.st.objs
  keeps : ∀ p, Known w.st.objs p → Known w'.st.objs p

namespace Grows

theorem refl (h : Sound B w.st.objs) : Grows B copies w w := ⟨.refl w, h, fun _ => id⟩

theorem trans (h1 : Grows B copies w w') (h2 : Grows B copies w' w'') : Grows B copies w w'' :=
  ⟨h1.logs.trans h2.logs, h2.sound, fun p hp => h2.keeps p (h1.keeps p hp)⟩

/-- A question about a path that is reached. -/
theorem ask (h : Sound B w.st.objs) {c : Call} (hc : ∀ p ∈ c.paths, Reached w.st.objs p) :
    Grows B copies w (w.ask B c).2 :=
  ⟨.ask B ⟨.reached hc, h⟩, h, fun _ => id⟩

theorem upsert (h : Sound B w.st.objs) (si : Nat) {full name : CStr} (parent : UInt32)
    (info : Info) (hfull : full.length < 4096) (hname : ProperName name)
    (hinside : ListsShort B → Inside full) :
    Grows B copies w (w.upsert si full name parent info).2 := by
  refine ⟨.setSt _, ⟨fun o ho => ?_, fun hshort o ho halive => ?_⟩, fun _ hp => hp.objUpsert⟩
  · rcases mem_objUpsert ho with rfl | ho
    · exact hname.cut
    · exact h.names o ho
  · rcases mem_objUpsert ho with rfl | ho
    · rw [(upserted_at hfull).2]
      exact hinside hshort
    · exact h.inside hshort o ho halive

/-- One name of a directory, where the scan of the directory that it may be stays with the table. -/
theorem scanName {scan : World β → CStr → UInt32 → World β} (si : Nat) {dir n : CStr}
    (parent : UInt32)
    (hscan : ∀ w p handle, Sound B w.st.objs → Known w.st.objs p →
      Grows B copies w (scan w p handle))
    (h : Sound B w.st.objs) (hdir : Known w.st.objs dir) (hn : ProperName n)
    (hshort : ListsShort B → (joinPath slash dir n).length < 4096) :
    Grows B copies w (scanName B scan si dir parent w n) := by
  have hfull := length_pathJoin_lt (by decide : 0 < 4096) dir n
  have hinside : ListsShort B → Inside (pathJoin 4096 dir n) := by
    intro hs
    rw [pathJoin_of_lt (hshort hs)]
    exact .sub (hdir.inside (h.inside hs)) hn
  have hask : Grows B copies w (w.ask B (.getInfo si (pathJoin 4096 dir n))).2 := by
    refine .ask h fun p hp => ?_
    obtain rfl := List.mem_singleton.mp hp
    exact .entry (le_refl 4096) hdir hn
  unfold Mtp.scanName
  dsimp only
  split
  · exact hask
  · next info _ =>
    have hup := hask.trans (Grows.upsert hask.sound si parent info hfull hn hinside)
    split
    · exact hup.trans (hscan _ _ _ hup.sound (known_upserted hfull))
    · exact hup

theorem scanNames {scan : World β → CStr → UInt32 → World β} {si : Nat} {dir : CStr}
    {parent : UInt32} {ns : List CStr}
    (hscan : ∀ w p handle, Sound B w.st.objs → Known w.st.objs p →
      Grows B copies w (scan w p handle))
    (h : Sound B w.st.objs) (hdir : Known w.st.objs dir)
    (hns : ∀ n ∈ ns, ProperName n ∧ (ListsShort B → (joinPath slash dir n).length < 4096)) :
    Grows B copies w (ns.foldl (Mtp.scanName B scan si dir parent) w) := by
  induction ns generalizing w with
  | nil => exact .refl h
  | cons n ns ih =>
    obtain ⟨hn, hns⟩ := List.forall_mem_cons.mp hns
    have hone := Grows.scanName si parent hscan h hdir hn.1 hn.2
    exact hone.trans (ih hone.sound (hone.keeps dir hdir) hns)

theorem scanDir (hB : ListsProper B) {si : Nat} {dir : CStr} {parent : UInt32} {fuel : Nat}
    (h : Sound B w.st.objs) (hdir : Known w.st.objs dir) :
    Grows B copies w (scanDir B si fuel w dir parent) := by
  induction fuel generalizing w dir parent with
  | zero => exact ⟨.fail, h, fun _ => id⟩
  | succ fuel ih =>
    have hask : Grows B copies w (w.ask B (.listdir si dir)).2 := by
      refine .ask h fun p hp => ?_
      obtain rfl := List.mem_singleton.mp hp
      exact .known hdir
    refine hask.trans (scanNames (fun w p handle => ih) hask.sound (hask.keeps dir hdir) ?_)
    -- the names go into slots of 256 bytes
    intro n hn
    obtain ⟨full, hfull, rfl⟩ := List.mem_map.mp ((List.perm_insertionSort _ _).mem_iff.mp hn)
    refine ⟨(hB w.disk si dir full hfull).cut, fun hs => ?_⟩
    have hlen := hs w.disk si dir full hfull
    have hcut : (snprintf 256 full).length ≤ full.length := by
      rw [snprintf, List.length_take]
      exact min_le_right _ _
    rw [joinPath_eq_append, List.length_append] at hlen ⊢
    omega

/-- A rescan, of a table with proper names. -/
theorem rescan (copies : Bool) (hB : ListsProper B) (h : ∀ o ∈ w.st.objs, ProperName o.name) :
    Logs (Stays B copies) w (rescan B w) ∧ Sound B (rescan B w).st.objs := by
  have hdead : Sound B (w.st.objs.map fun o => { o with alive := false }) := by
    constructor
    · intro o ho
      obtain ⟨o', ho', rfl⟩ := List.mem_map.mp ho
      exact h o' ho'
    · intro _ o ho halive
      obtain ⟨o', -, rfl⟩ := List.mem_map.mp ho
      cases halive
  have hstores : ∀ (stores : List Nat) (w : World β), Sound B w.st.objs →
      Grows B copies w (stores.foldl (fun w si => Mtp.scanDir B si B.depth w [] 0) w) := by
    intro stores
    induction stores with
    | nil => exact fun w h => .refl h
    | cons si stores ih =>
      intro w h
      have hone : Grows B copies w (Mtp.scanDir B si B.depth w [] 0) := .scanDir hB h (.inl rfl)
      exact hone.trans (ih _ hone.sound)
  have hall := hstores (List.range w.st.nStores) (w.setSt { w.st with
    objs := w.st.objs.map fun o => { o with alive := false } }) hdead
  exact ⟨(Logs.setSt _).trans (hall.logs.trans (.note trivial)), hall.sound⟩

end Grows

end

/-! ### The commands -/

/-- The name that a data phase has brought. -/
def MtpState.hostName (st : MtpState) (payload : List UInt8) : Option CStr :=
  if st.rxCode = opSendObjectInfo then some (ptpStrAscii (payload.drop 52) 256)
  else if st.rxCode = opSetObjectPropValue then some (ptpStrAscii payload 256)
  else none

/-- The name that the host gives in an action, at the end of its data phase. -/
def Act.hostName {β : Type} (st : MtpState) : Act β → Option CStr
  | .out chunk =>
    let st := st.fill chunk
    if st.rxActive ∧ st.whole then st.endRx.hostName (rxPayload st.endRx) else none
  | _ => none

/-- The host gives no name, an empty one, or a proper one. -/
def Act.NamesProper {β : Type} (st : MtpState) (a : Act β) : Prop :=
  ∀ n ∈ a.hostName st, n ≠ [] → ProperName n

instance {β : Type} (st : MtpState) (a : Act β) : Decidable (a.NamesProper st) :=
  inferInstanceAs (Decidable (∀ n ∈ a.hostName st, _))

def Outcome.copies : Outcome → Bool
  | .moveAcross .. | .copy .. => true
  | _ => false

/-- The action is a command that copies. -/
def Act.copies {β : Type} (dateText : UInt32 → CStr) (st : MtpState) : Act β → Bool
  | .out chunk =>
    !st.rxActive && (plan dateText st (getLe16 (chunk.drop 6)) (paramsOf chunk)).copies
  | _ => false

section
variable {objs : List Obj}

theorem Known.of_handle {handle : UInt32} {o : Obj} (h : objByHandle objs handle = some o) :
    Known objs o.path :=
  .inr ⟨o, (objByHandle_some h).1, (objByHandle_some h).2.1, rfl⟩

theorem Known.target {n si : Nat} {storage parent : UInt32} {dir : CStr}
    (h : target n objs storage parent = some (si, dir)) : Known objs dir := by
  unfold Mtp.target at h
  split at h
  · obtain ⟨-, rfl⟩ := Prod.mk.inj (Option.some.inj h)
    exact .inl rfl
  · split at h
    · next o ho =>
      split at h
      · obtain ⟨-, rfl⟩ := Prod.mk.inj (Option.some.inj h)
        exact .of_handle ho
      · cases h
    · cases h

theorem Known.parentDir (o : Obj) : Known objs (parentDir objs o) := by
  unfold Mtp.parentDir
  split
  · exact .inl rfl
  · split
    · next d hd => exact .of_handle hd
    · exact .inl rfl

/-- A call about a path of the table. -/
theorem Call.Confined.one {copies : Bool} {c : Call} {p : CStr} (hc : c.paths = [p])
    (hp : Reached objs p) : c.Confined copies objs := by
  refine .reached fun q hq => ?_
  rw [hc] at hq
  rwa [List.mem_singleton.mp hq]

theorem Call.Confined.rename {copies : Bool} {si : Nat} {p q : CStr} (hp : Known objs p)
    (hq : Reached objs q) : (Call.rename si p q).Confined copies objs := by
  refine .reached fun r hr => ?_
  rcases List.mem_cons.mp hr with rfl | hr
  · exact .known hp
  · rwa [List.mem_singleton.mp hr]

/-- The calls of a copy, from one object on. -/
theorem Copies.confined (hobjs : ∀ o ∈ objs, ProperName o.name) {dsi : Nat} {o : Obj}
    {dest name : CStr} {c : Call} (h : Copies objs dsi o dest name c) (ho : o ∈ objs)
    (halive : o.alive = true) (hpath : CopyPath objs o (pathJoin 8192 dest name)) :
    c.Confined true objs := by
  induction h with
  | makeDir => exact .copyDir rfl hpath
  | read => exact .one rfl (.known (.inr ⟨_, ho, halive, rfl⟩))
  | write => exact .copyFile rfl hpath
  | child hdir hchild hcalive hparent _ ih =>
    exact ih hchild hcalive (.deeper hpath hdir hchild hcalive hparent (hobjs _ hchild))

/-- The calls of a command. -/
theorem Planned.confined {st : MtpState} (hobjs : ∀ o ∈ st.objs, ProperName o.name)
    {code : UInt16} {p : List UInt32} {outcome : Outcome} (h : Planned st code p outcome) {c : Call}
    (hc : outcome.Makes st.objs c) : c.Confined outcome.copies st.objs := by
  have hcopy : ∀ {handle o dsi dest}, objByHandle st.objs handle = some o →
      target st.nStores st.objs (par p 1) (par p 2) = some (dsi, dest) →
      Copies st.objs dsi o dest o.name c → c.Confined true st.objs := by
    intro handle o dsi dest ho ht hcopies
    obtain ⟨hmem, halive, -⟩ := objByHandle_some ho
    exact hcopies.confined hobjs hmem halive (.top hmem halive (.target ht) (hobjs o hmem))
  cases outcome with
  | answer | dataset | setSession | beginRx | hang => exact hc.elim
  | storageInfo si id =>
    rcases hc with rfl | rfl <;> exact .reached fun _ hp => absurd hp List.not_mem_nil
  | read o off want counted =>
    obtain ⟨_, rfl⟩ := hc
    exact .one rfl (.known (.of_handle h.1))
  | remove o handle =>
    obtain ⟨-, -, -, ho⟩ := h
    rw [show c = _ from hc]
    exact .one rfl (.known (.of_handle ho))
  | rename o neu =>
    obtain ⟨-, -, ho, dest, ht, rfl⟩ := h
    rw [show c = _ from hc]
    exact .rename (.of_handle ho)
      (.entry (by decide) (.target ht) (hobjs o (objByHandle_some ho).1))
  | moveAcross o dsi dest =>
    obtain ⟨-, -, ho, ht, -⟩ := h
    rcases hc with hc | rfl
    · exact hcopy ho ht hc
    · exact .one rfl (.known (.of_handle ho))
  | copy o dsi dest =>
    obtain ⟨-, -, ho, ht⟩ := h
    exact hcopy ho ht hc
  | truncate o size =>
    obtain ⟨-, -, ho, -⟩ := h
    rw [show c = _ from hc]
    exact .one rfl (.known (.of_handle ho))

/-- The calls at the end of a data phase that brings a proper name. -/
theorem PlannedRx.confined {st : MtpState} {payload : List UInt8}
    (hname : ∀ n ∈ st.hostName payload, n ≠ [] → ProperName n) {outcome : RxOutcome}
    (h : PlannedRx st payload outcome) {c : Call} (hc : outcome.Makes payload c) :
    c.Confined false st.objs := by
  cases outcome with
  | answer | setDeviceProp | none => exact hc.elim
  | makeObject isDir si full =>
    obtain ⟨hcode, -, dir, ht, hne, rfl⟩ := h
    have hn : ProperName (ptpStrAscii (payload.drop 52) 256) := by
      refine hname _ ?_ hne
      rw [MtpState.hostName, hcode]
      exact Option.mem_def.mpr rfl
    rw [show c = _ from hc]
    cases isDir <;> exact .one rfl (.entry (by decide) (.target ht) hn)
  | store o handle =>
    obtain ⟨-, -, ho⟩ := h
    rw [show c = _ from hc]
    exact .one rfl (.known (.of_handle ho))
  | rename o neu =>
    obtain ⟨hcode, ho, hne, rfl⟩ := h
    rw [show c = _ from hc]
    have hn : ProperName (ptpStrAscii payload 256) := by
      refine hname _ ?_ hne
      rw [MtpState.hostName, hcode]
      exact Option.mem_def.mpr rfl
    exact .rename (.of_handle ho) (.entry (by decide) (.parentDir o) hn)
  | pwrite o off =>
    obtain ⟨-, ho, -⟩ := h
    rw [show c = _ from hc]
    exact .one rfl (.known (.of_handle ho))

end

/-! ### Whole runs -/

section
variable {β : Type} {B : Backend β} {w w' : World β}

/-- What is quiet stays with a sound table. -/
theorem Sound.quiet {P : Effect β → Prop} (h : Sound B w.st.objs) (hq : Quiet P w w') :
    Sound B w'.st.objs := hq.objs.symm ▸ h

theorem stays_calls {copies : Bool} {objs : List Obj} {made : Call → Prop} (hs : Sound B objs)
    (hmade : ∀ c, made c → c.Confined copies objs) (e : Effect β) (he : Calls objs made e) :
    Stays B copies e := by
  cases e with
  | called c st =>
    obtain ⟨hobjs, hc⟩ := he
    rw [Stays, hobjs]
    exact ⟨hmade c hc, hs⟩
  | sent pipe c => trivial
  | rescanned st disk => trivial

/-- A course whose calls stay with the table. -/
theorem Sound.course (hB : ListsProper B) (h : Sound B w.st.objs) {copies : Bool}
    {made : Call → Prop} (hmade : ∀ c, made c → c.Confined copies w.st.objs)
    (hcourse : Course B made w w') : Logs (Stays B copies) w w' ∧ Sound B w'.st.objs := by
  have hcalls := stays_calls (β := β) (B := B) h hmade
  cases hcourse with
  | quiet hq => exact ⟨hq.logs.mono hcalls, h.quiet hq⟩
  | @scan w1 objs hq hobjs hend =>
    have h1 := h.quiet hq
    have hnames : ∀ o ∈ objs, ProperName o.name := by
      rcases hobjs with rfl | ⟨si, old, neu, rfl⟩
      · exact h1.names
      · intro o ho
        obtain ⟨o', ho', rfl⟩ := List.mem_map.mp ho
        have := h1.names o' ho'
        split <;> exact this
    have hscan := Grows.rescan copies (w := w1.setSt { w1.st with objs }) hB hnames
    have hsent : ∀ e : Effect β, IsSent e → Stays B copies e := by
      intro e he
      cases e with
      | sent pipe c => trivial
      | called c st => exact he.elim
      | rescanned st disk => exact he.elim
    have hset : Logs (Stays B copies) w1 (w1.setSt { w1.st with objs }) := .setSt _
    refine ⟨(hq.logs.mono hcalls).trans (hset.trans ?_), hscan.2.quiet hend⟩
    exact hscan.1.trans (hend.logs.mono hsent)

theorem Sound.completeRx (hB : ListsProper B) (h : Sound B w.st.objs)
    (hname : ∀ n ∈ w.st.hostName (rxPayload w.st), n ≠ [] → ProperName n) :
    Logs (Stays B false) w (completeRx B w) ∧ Sound B (completeRx B w).st.objs := by
  have hplan : PlannedRx w.st (rxPayload w.st) (planRx w.st (rxPayload w.st)) := .planRx _ _
  exact h.course hB (fun c hc => hplan.confined hname hc) (course_completeRx B)

theorem Sound.act (hB : ListsProper B) (h : Sound B w.st.objs) {a : Act β}
    (ha : a.NamesProper w.st) :
    Logs (Stays B (a.copies B.dateText w.st)) w (act B w a) ∧ Sound B (act B w a).st.objs := by
  cases a with
  | outside disk => exact ⟨⟨⟨[], by simp [Mtp.act], by simp⟩, id⟩, h⟩
  | control setup => exact ⟨.setSt _, h⟩
  | out chunk =>
    rw [Mtp.act]
    cases hrx : w.st.rxActive with
    | false =>
      rw [onOut_of_inactive B hrx]
      refine h.course hB (fun c hc => ?_) (course_dispatch B chunk)
      rw [Act.copies, hrx]
      exact (Planned.plan ..).confined h.names hc
    | true =>
      cases hwhole : (w.st.fill chunk).whole with
      | false =>
        rw [onOut_of_not_whole B hrx hwhole]
        exact ⟨.setSt _, h⟩
      | true =>
        have hnames : ∀ n ∈ (w.st.fill chunk).endRx.hostName (rxPayload (w.st.fill chunk).endRx),
            n ≠ [] → ProperName n := by
          intro n hn
          refine ha n ?_
          rw [Act.hostName]
          exact Option.mem_def.mpr ((if_pos ⟨hrx, hwhole⟩).trans hn)
        have hset : Logs (Stays B false) w (w.setSt (w.st.fill chunk).endRx) := .setSt _
        have hend := Sound.completeRx (w := w.setSt (w.st.fill chunk).endRx) hB h hnames
        rw [onOut_of_whole B hrx hwhole, Act.copies, hrx]
        exact ⟨hset.trans hend.1, hend.2⟩

/-- In every run with proper names from the backend and from the host, every call stays with the
table, and its paths are chains of proper names where they fit. -/
theorem paths_confined (hB : ListsProper B) (opts : MtpOpts) (disk : β) {acts : List (Act β)}
    (hg : Guarded (next B) (fun w a => a.NamesProper w.st) (build B opts disk) acts) :
    (∀ c st, .called c st ∈ (build B opts disk).log → c.Confined false st.objs ∧
      (ListsShort B → ∀ p ∈ c.paths, ∃ q, Inside q ∧ p <+: q)) ∧
      Guarded (next B) (fun w a => ∀ c st, .called c st ∈ (act B w a).log.drop w.log.length →
        c.Confined (a.copies B.dateText w.st) st.objs ∧
          (ListsShort B → ∀ p ∈ c.paths, ∃ q, Inside q ∧ p <+: q)) (build B opts disk) acts := by
  have hcall : ∀ {copies c st}, Stays B copies (.called c st) → c.Confined copies st.objs ∧
      (ListsShort B → ∀ p ∈ c.paths, ∃ q, Inside q ∧ p <+: q) :=
    fun hs => ⟨hs.1, fun hshort => hs.1.inside (hs.2.inside hshort)⟩
  have hstart := Grows.rescan false (w := ⟨opts.initial, disk, [], false⟩) hB
    fun o ho => absurd ho List.not_mem_nil
  refine ⟨fun c st hc => hcall (hstart.1.all (fun e he => absurd he List.not_mem_nil) _ hc), ?_⟩
  refine Guarded.imp (I := fun w => Sound B w.st.objs) (fun w a hs ha => ?_) hstart.2 hg
  obtain ⟨hlogs, hsound⟩ := hs.act hB ha
  refine ⟨fun c st hc => ?_, fun w' hw' => ?_⟩
  · obtain ⟨es, hes, hall⟩ := hlogs.log
    rw [hes, List.drop_left] at hc
    exact hcall (hall _ hc)
  · obtain ⟨-, rfl⟩ := next_some B hw'
    exact hsound

end

/-! ### Two runs -/

def sampleBackend : Backend Unit := .ofTrees (fun _ _ => sampleTree) fun _ _ => (0, ())

def sampleStart : World Unit := build sampleBackend ⟨false, none, none, none, 2⟩ ()

def openSession : Act Unit := .out (Container.bytes ⟨1, opOpenSession, 1, u32le 1⟩)

/-- The host makes a directory in the root of the first store. -/
def makesDir (name : CStr) : List (Act Unit) :=
  [openSession, .out (Container.bytes ⟨1, opSendObjectInfo, 2, u32le (storageId 0) ++ u32le 0⟩),
    .out (Container.bytes ⟨2, opSendObjectInfo, 2,
      List.replicate 4 0 ++ Device.u16le fmtAssociation ++ List.replicate 46 0 ++ bstr name⟩)]

/-- The host copies the directory of the first store into that of the second. -/
def copiesDir : List (Act Unit) :=
  [openSession,
    .out (Container.bytes ⟨1, opCopyObject, 2, u32le 1 ++ u32le (storageId 1) ++ u32le 3⟩)]

/-- A call, made on a table. -/
def Effect.asks {β : Type} (c : Call) (objs : List Obj) : Effect β → Bool
  | .called c' st => c' = c ∧ st.objs = objs
  | _ => false

theorem exists_of_asks {β : Type} {log : List (Effect β)} {c : Call} {objs : List Obj}
    (h : log.any (Effect.asks c objs) = true) : ∃ st, .called c st ∈ log ∧ st.objs = objs := by
  obtain ⟨e, he, hasks⟩ := List.any_eq_true.mp h
  cases e with
  | called c' st =>
    obtain ⟨rfl, hobjs⟩ := of_decide_eq_true hasks
    exact ⟨st, he, hobjs⟩
  | sent pipe c => cases hasks
  | rescanned st disk => cases hasks

theorem sample_listsProper : ListsProper sampleBackend := by
  intro _ si dir n hn
  rcases sampleTree_ls hn with ⟨-, rfl⟩ | ⟨-, rfl⟩ <;> decide

/-- A name of the host that leads out of the store, and a copy two components below what the table
has. -/
theorem not_confined :
    (∃ w st, exec (next sampleBackend) sampleStart (makesDir (ascii "..")) = some w ∧
      .called (.makeDir 0 (ascii "..")) st ∈ w.log ∧ ¬Reached st.objs (ascii "..")) ∧
      ∃ w st, exec (next sampleBackend) sampleStart copiesDir = some w ∧
        .called (.write 1 (ascii "d/d/f") [] 0) st ∈ w.log ∧
        ¬Reached st.objs (ascii "d/d/f") := by
  constructor
  · have hlog : ((makesDir (ascii "..")).foldl (act sampleBackend) sampleStart).log.any
        (Effect.asks (.makeDir 0 (ascii "..")) sampleStart.st.objs) = true := by
      decide
    obtain ⟨st, hcall, hobjs⟩ := exists_of_asks hlog
    refine ⟨_, st, rfl, hcall, fun h => ?_⟩
    rw [hobjs] at h
    rcases Reached.of_join [] (ascii "..") (by decide) (by decide) h with h | h
    · exact absurd h (by decide)
    · exact absurd h.2 (by decide)
  · have hlog : (copiesDir.foldl (act sampleBackend) sampleStart).log.any
        (Effect.asks (.write 1 (ascii "d/d/f") [] 0) sampleStart.st.objs) = true := by
      decide
    obtain ⟨st, hcall, hobjs⟩ := exists_of_asks hlog
    refine ⟨_, st, rfl, hcall, fun h => ?_⟩
    rw [hobjs] at h
    rcases Reached.of_join (ascii "d/d") (ascii "f") (by decide) (by decide) h with h | h
    · exact absurd h (by decide)
    · exact absurd h.1 (by decide)

theorem paths_confined_sample :
    (∀ c st, .called c st ∈ sampleStart.log → c.Confined false st.objs ∧
      (ListsShort sampleBackend → ∀ p ∈ c.paths, ∃ q, Inside q ∧ p <+: q)) ∧
      Guarded (next sampleBackend) (fun w a =>
        ∀ c st, .called c st ∈ (act sampleBackend w a).log.drop w.log.length →
          c.Confined (a.copies sampleBackend.dateText w.st) st.objs ∧
            (ListsShort sampleBackend → ∀ p ∈ c.paths, ∃ q, Inside q ∧ p <+: q))
        sampleStart (makesDir (ascii "n")) :=
  paths_confined sample_listsProper _ () (by decide)

end Usbip.Mtp
