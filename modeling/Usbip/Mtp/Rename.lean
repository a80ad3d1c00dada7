import Usbip.Mtp.Mirror

/-! Renames and moves within a store.  The table rewrites its paths and then takes the first entry
of every path again, alive or dead, so a handle survives exactly where no earlier entry has the new
path of its object. -/

namespace Usbip.Mtp

open Lib Control

/-! ### Paths -/

/-- Where a rename of `old` to `neu` takes a path. -/
def movedPath (old neu p : CStr) : CStr :=
  if p = old ∨ old ++ [slash] <+: p then neu ++ p.drop old.length else p

/-- What a rename to `neu` replaces. -/
def Overwritten (old neu p : CStr) : Prop := Under slash neu p ∧ ¬Under slash old p

theorem under_iff {q p : CStr} : Under slash q p ↔ p = q ∨ q ++ [slash] <+: p := by
  constructor
  · rintro ⟨r, rfl, rfl | ⟨s, rfl⟩⟩
    · exact .inl (List.append_nil q)
    · exact .inr ⟨s, by simp⟩
  · rintro (rfl | ⟨s, rfl⟩)
    · exact .refl _
    · exact ⟨slash :: s, by simp, .inr ⟨s, rfl⟩⟩

section
variable {old neu p p' : CStr}

theorem movedPath_of_under (h : Under slash old p) :
    movedPath old neu p = neu ++ p.drop old.length := if_pos (under_iff.mp h)

theorem movedPath_of_not_under (h : ¬Under slash old p) : movedPath old neu p = p :=
  if_neg fun hc => h (under_iff.mpr hc)

theorem under_movedPath (neu : CStr) (h : Under slash old p) : Under slash neu (movedPath old neu p) := by
  rw [movedPath_of_under h]
  obtain ⟨r, rfl, hr⟩ := h
  exact ⟨r, by simp, hr⟩

/-- The table rewrites a path as the rename does, cut to the size of its field. -/
theorem retagPath_of_under (h : Under slash old p) :
    retagPath old neu p = snprintf 4096 (movedPath old neu p) := by
  rw [movedPath_of_under h]
  unfold retagPath
  by_cases hp : p = old
  · simp [hp]
  · have hpre : (old ++ [slash]).isPrefixOf p = true :=
      List.isPrefixOf_iff_prefix.mpr ((under_iff.mp h).resolve_left hp)
    rw [if_neg hp, if_pos hpre]
    simp [snprintf]

theorem retagPath_of_not_under (h : ¬Under slash old p) : retagPath old neu p = p := by
  have hne : ¬p = old := fun hp => h (under_iff.mpr (.inl hp))
  have hpre : ¬(old ++ [slash]).isPrefixOf p = true := fun hp =>
    h (under_iff.mpr (.inr (List.isPrefixOf_iff_prefix.mp hp)))
  rw [retagPath, if_neg hne, if_neg hpre]

theorem retagPath_eq_moved (h : (movedPath old neu p).length < 4096) :
    retagPath old neu p = movedPath old neu p := by
  by_cases hu : Under slash old p
  · rw [retagPath_of_under hu, snprintf_of_lt h]
  · rw [retagPath_of_not_under hu, movedPath_of_not_under hu]

/-- Also a cut path stands below the new path. -/
theorem under_retagPath (h : Under slash old p) (hneu : neu.length < 4096) :
    Under slash neu (retagPath old neu p) := by
  rw [retagPath_of_under h]
  obtain ⟨r, hr, hsep⟩ := under_movedPath neu h
  rw [hr, snprintf, List.take_append, List.take_of_length_le (by omega)]
  refine ⟨_, rfl, ?_⟩
  rcases hsep with rfl | ⟨s, rfl⟩
  · exact .inl List.take_nil
  · cases hk : 4096 - 1 - neu.length with
    | zero => exact .inl rfl
    | succ k => exact .inr ⟨s.take k, rfl⟩

end

/-! ### Tables -/

/-- A look-up by path sees only the keys. -/
theorem objByPath_key (objs : List Obj) (si : Nat) (path : CStr) :
    (objByPath objs si path).map Obj.key =
      (objs.map Obj.key).find? fun k => decide (k.2.1 = si ∧ k.2.2 = path) := by
  rw [List.find?_map]
  rfl

theorem objByPath_of_keys {objs objs' : List Obj} (h : objs.map Obj.key <+: objs'.map Obj.key)
    {si : Nat} {path : CStr} {o : Obj} (ho : objByPath objs si path = some o) :
    ∃ o', objByPath objs' si path = some o' ∧ o'.key = o.key := by
  have hkey := objByPath_key objs si path
  obtain ⟨more, hmore⟩ := h
  have hkey' := objByPath_key objs' si path
  rw [← hmore, List.find?_append, ← hkey, ho] at hkey'
  exact Option.map_eq_some_iff.mp hkey'

/-- A handle stands for what is at a path. -/
def Designates (objs : List Obj) (handle : UInt32) (si : Nat) (path : CStr) : Prop :=
  ∃ o, objByHandle objs handle = some o ∧ o.si = si ∧ o.path = path

/-- A rename in a store, on the paths of all stores. -/
def movedIn (si : Nat) (old neu : CStr) (si' : Nat) (p : CStr) : CStr :=
  if si' = si then movedPath old neu p else p

/-- The handles go with what they stand for: what the rename does not overwrite keeps its handle,
and no handle gets to stand for anything else. -/
structure HandlesKept (si : Nat) (old neu : CStr) (objs objs' : List Obj) : Prop where
  valid : ∀ handle si' p, Designates objs handle si' p → ¬(si' = si ∧ Overwritten old neu p) →
    Designates objs' handle si' (movedIn si old neu si' p)
  same : ∀ handle si' p', Designates objs' handle si' p' → ∃ p, Designates objs handle si' p ∧
    ¬(si' = si ∧ Overwritten old neu p) ∧ p' = movedIn si old neu si' p

/-- No entry that stands before a moved object in the table, alive or dead, gets the same path. -/
def Unshadowed (objs : List Obj) (si : Nat) (old neu : CStr) : Prop :=
  ∀ pre x post, objs = pre ++ x :: post → x.alive = true → x.si = si → Under slash old x.path →
    ∀ y ∈ pre, y.si = si → retagPath old neu y.path ≠ retagPath old neu x.path

/-- What `retag_paths` makes of an entry. -/
def retagObj (si : Nat) (old neu : CStr) (o : Obj) : Obj :=
  if o.si = si then { o with path := retagPath old neu o.path } else o

section
variable {objs objs' : List Obj} {nextHandle nextHandle' : UInt32} {n si : Nat} {old neu : CStr}
  {V V' : Nat → Tree}

theorem retagPaths_eq (objs : List Obj) (si : Nat) (old neu : CStr) :
    retagPaths objs si old neu = objs.map (retagObj si old neu) := rfl

@[simp] theorem retagObj_handle (o : Obj) : (retagObj si old neu o).handle = o.handle := by
  unfold retagObj
  split <;> rfl

@[simp] theorem retagObj_si (o : Obj) : (retagObj si old neu o).si = o.si := by
  unfold retagObj
  split <;> rfl

theorem retagObj_path (o : Obj) :
    (retagObj si old neu o).path = if o.si = si then retagPath old neu o.path else o.path := by
  unfold retagObj
  split <;> rfl

/-- The first entry with the new path of an object is the object's own. -/
theorem objByPath_retagged (hfirsts : Firsts objs) (hun : Unshadowed objs si old neu)
    (hneu : neu.length < 4096) {x : Obj} (hx : x ∈ objs) (halive : x.alive = true)
    (hover : ¬(x.si = si ∧ Overwritten old neu x.path)) :
    objByPath (retagPaths objs si old neu) x.si (retagObj si old neu x).path =
      some (retagObj si old neu x) := by
  obtain ⟨-, pre, post, hobjs, hpre⟩ := List.find?_eq_some_iff_append.mp (hfirsts x hx halive)
  refine List.find?_eq_some_iff_append.mpr
    ⟨Obj.at_iff.mpr ⟨retagObj_si x, rfl⟩, pre.map (retagObj si old neu),
      post.map (retagObj si old neu), by rw [retagPaths_eq, hobjs]; simp, ?_⟩
  intro y' hy'
  obtain ⟨y, hy, rfl⟩ := List.mem_map.mp hy'
  rw [Bool.not_eq_true', Bool.eq_false_iff]
  intro hat
  obtain ⟨hsi, hpath⟩ := Obj.at_iff.mp hat
  rw [retagObj_si] at hsi
  have hother : y.path ≠ x.path := fun h => by simpa [Obj.at, hsi, h] using hpre y hy
  rw [retagObj_path, retagObj_path, hsi] at hpath
  by_cases hxsi : x.si = si
  · rw [if_pos hxsi, if_pos hxsi] at hpath
    by_cases hu : Under slash old x.path
    · exact hun pre x post hobjs halive hxsi hu y hy (hsi.trans hxsi) hpath
    · rw [retagPath_of_not_under hu] at hpath
      by_cases huy : Under slash old y.path
      · exact hover ⟨hxsi, hpath ▸ under_retagPath huy hneu, hu⟩
      · exact hother ((retagPath_of_not_under huy).symm.trans hpath)
  · rw [if_neg hxsi, if_neg hxsi] at hpath
    exact hother hpath

/-- The trees before and after a rename in a store. -/
def RenamedTrees (V V' : Nat → Tree) (si : Nat) (old neu : CStr) : Prop :=
  ∀ si' p', (V' si').Entry p' ↔ ∃ p, (V si').Entry p ∧ ¬(si' = si ∧ Overwritten old neu p) ∧
    p' = movedIn si old neu si' p

theorem Mirrors.entry_objByPath (hm : Mirrors objs n V) {si' : Nat} {p : CStr} (hsi : si' < n)
    (hp : (V si').Entry p) : ∃ o, objByPath objs si' p = some o ∧ o.alive = true := by
  obtain ⟨dir, name, o, rfl, -, -, hs⟩ := hm.shown si' hsi p hp
  exact ⟨o, hs.found, hs.alive⟩

/-- The new path of an object that is not overwritten fits the table. -/
theorem retagObj_path_eq (hm : Mirrors objs n V) (hV' : ∀ si, (V' si).Proper)
    (htrees : RenamedTrees V V' si old neu) {x : Obj} (hx : x ∈ objs) (halive : x.alive = true)
    (hover : ¬(x.si = si ∧ Overwritten old neu x.path)) :
    (V' x.si).Entry (movedIn si old neu x.si x.path) ∧
      (retagObj si old neu x).path = movedIn si old neu x.si x.path := by
  have hentry : (V' x.si).Entry (movedIn si old neu x.si x.path) :=
    (htrees x.si _).mpr ⟨x.path, (hm.alive x hx halive).2, hover, rfl⟩
  have hlt := (hV' x.si).entry_length hentry
  refine ⟨hentry, ?_⟩
  rw [retagObj_path]
  unfold movedIn at hlt ⊢
  split
  · next hsi =>
    rw [if_pos hsi] at hlt
    exact retagPath_eq_moved hlt
  · rfl

/-- An object that no earlier entry shadows keeps its handle. -/
theorem handle_kept (hm : Mirrors objs n V) (hm' : Mirrors objs' n V') (hV' : ∀ si, (V' si).Proper)
    (hkeys : (retagPaths objs si old neu).map Obj.key <+: objs'.map Obj.key)
    (htrees : RenamedTrees V V' si old neu) (hneu : neu.length < 4096)
    (hun : Unshadowed objs si old neu) {x : Obj} (hx : x ∈ objs) (halive : x.alive = true)
    (hover : ¬(x.si = si ∧ Overwritten old neu x.path)) :
    ∃ o, objByPath objs' x.si (movedIn si old neu x.si x.path) = some o ∧ o.alive = true ∧
      o.handle = x.handle := by
  obtain ⟨hentry, hpath⟩ := retagObj_path_eq hm hV' htrees hx halive hover
  have hfirst := objByPath_retagged hm.firsts hun hneu hx halive hover
  rw [hpath] at hfirst
  obtain ⟨o, ho, hkey⟩ := objByPath_of_keys hkeys hfirst
  obtain ⟨o', ho', hoalive⟩ := hm'.entry_objByPath (hm.alive x hx halive).1 hentry
  obtain rfl := Option.some.inj (ho.symm.trans ho')
  exact ⟨o, ho, hoalive, (Prod.mk.inj hkey).1.trans (retagObj_handle x)⟩

/-- The handles after a rename, by the entries of the table before it. -/
theorem kept_iff_unshadowed (hm : Mirrors objs n V) (hnum : Numbered objs nextHandle)
    (hm' : Mirrors objs' n V') (hnum' : Numbered objs' nextHandle') (hlen' : objs'.length < 2 ^ 32)
    (hV' : ∀ si, (V' si).Proper)
    (hkeys : (retagPaths objs si old neu).map Obj.key <+: objs'.map Obj.key)
    (htrees : RenamedTrees V V' si old neu)
    (hold : ∃ o ∈ objs, o.alive = true ∧ o.si = si ∧ o.path = old) :
    HandlesKept si old neu objs objs' ↔ Unshadowed objs si old neu := by
  have hlen : objs.length < 2 ^ 32 := by
    have hle := hkeys.length_le
    rw [retagPaths_eq, List.length_map, List.length_map, List.length_map] at hle
    omega
  have hnotover : ∀ {x : Obj}, Under slash old x.path → ¬(x.si = si ∧ Overwritten old neu x.path) :=
    fun hu hc => hc.2.2 hu
  have hneu : neu.length < 4096 := by
    obtain ⟨o, ho, halive, hsi, hpath⟩ := hold
    have hu : Under slash old o.path := hpath ▸ .refl _
    have hentry := (retagObj_path_eq hm hV' htrees ho halive (hnotover hu)).1
    rw [movedIn, if_pos hsi, movedPath_of_under hu, hpath, List.drop_length,
      List.append_nil] at hentry
    exact (hV' o.si).entry_length hentry
  constructor
  · rintro hkept pre x post hobjs halive hsi hu y hy hysi heq
    have hx : x ∈ objs := by rw [hobjs]; simp
    have hpath := (retagObj_path_eq hm hV' htrees hx halive (hnotover hu)).2
    obtain ⟨o, ho, hosi, hopath⟩ := hkept.valid x.handle x.si x.path
      ⟨x, objByHandle_of_mem hnum hlen hx halive, rfl, rfl⟩ (hnotover hu)
    obtain ⟨hmem, hoalive, hohandle⟩ := objByHandle_some ho
    have hfirst := hm'.firsts o hmem hoalive
    rw [hosi, hopath, ← hpath] at hfirst
    -- the first entry with the new path stands before the object
    have hat : (retagObj si old neu y).at x.si (retagObj si old neu x).path = true :=
      Obj.at_iff.mpr ⟨by rw [retagObj_si, hysi, hsi],
        by rw [retagObj_path, retagObj_path, if_pos hysi, if_pos hsi, heq]⟩
    obtain ⟨f, hf⟩ := Option.isSome_iff_exists.mp (List.find?_isSome
      (p := fun o : Obj => o.at x.si (retagObj si old neu x).path).mpr
      ⟨_, List.mem_map_of_mem (f := retagObj si old neu) hy, hat⟩)
    have hlook : objByPath (retagPaths objs si old neu) x.si (retagObj si old neu x).path =
        some f := by
      rw [objByPath, retagPaths_eq, hobjs, List.map_append, List.find?_append, hf]
      rfl
    obtain ⟨z, hz, rfl⟩ := List.mem_map.mp (List.mem_of_find?_eq_some hf)
    obtain ⟨o', ho', hkey⟩ := objByPath_of_keys hkeys hlook
    obtain rfl := Option.some.inj (hfirst.symm.trans ho')
    have hhandle : z.handle = x.handle :=
      (retagObj_handle z).symm.trans ((Prod.mk.inj hkey).1.symm.trans hohandle)
    have hnodup := hnum.nodup hlen
    rw [hobjs, List.map_append, List.map_cons] at hnodup
    exact (List.nodup_append.mp hnodup).2.2 z.handle (List.mem_map_of_mem hz) x.handle
      List.mem_cons_self hhandle
  · intro hun
    have hkept := fun {x} => handle_kept (x := x) hm hm' hV' hkeys htrees hneu hun
    constructor
    · rintro handle si' p ⟨x, hx, rfl, rfl⟩ hover
      obtain ⟨hmem, halive, rfl⟩ := objByHandle_some hx
      obtain ⟨o, ho, hoalive, hhandle⟩ := hkept hmem halive hover
      obtain ⟨homem, hosi, hopath⟩ := objByPath_some ho
      exact ⟨o, hhandle ▸ objByHandle_of_mem hnum' hlen' homem hoalive, hosi, hopath⟩
    · rintro handle si' p' ⟨o, ho, rfl, rfl⟩
      obtain ⟨homem, hoalive, rfl⟩ := objByHandle_some ho
      obtain ⟨hsi, hentry⟩ := hm'.alive o homem hoalive
      obtain ⟨p, hp, hover, hpath⟩ := (htrees o.si o.path).mp hentry
      obtain ⟨x, hx, halive⟩ := hm.entry_objByPath hsi hp
      obtain ⟨hmem, hxsi, rfl⟩ := objByPath_some hx
      rw [← hxsi] at hover hpath
      obtain ⟨o', ho', -, hhandle⟩ := hkept hmem halive hover
      have hfirst := hm'.firsts o homem hoalive
      rw [← hpath, hxsi, hfirst] at ho'
      obtain rfl := Option.some.inj ho'
      exact ⟨x.path, ⟨x, hhandle ▸ objByHandle_of_mem hnum hlen hmem halive, hxsi, rfl⟩,
        hxsi ▸ hover, hxsi ▸ hpath⟩

end

/-! ### The commands -/

/-- The object and the new path, where an outcome is a rename. -/
def Outcome.renames : Outcome → Option (Obj × CStr)
  | .rename o neu => some (o, neu)
  | _ => none

def RxOutcome.renames : RxOutcome → Option (Obj × CStr)
  | .rename o neu => some (o, neu)
  | _ => Option.none

/-- The rename that an action comes to. -/
def Act.renames {β : Type} (dateText : UInt32 → CStr) (st : MtpState) : Act β → Option (Obj × CStr)
  | .out chunk =>
    if st.rxActive then
      let st := st.fill chunk
      if st.whole then (planRx st.endRx (rxPayload st.endRx)).renames else none
    else if chunk.length < 12 ∨ st.session = 0 then none
    else (plan dateText st (getLe16 (chunk.drop 6)) (paramsOf chunk)).renames
  | _ => none

theorem Outcome.eq_of_renames {outcome : Outcome} {o : Obj} {neu : CStr}
    (h : outcome.renames = some (o, neu)) : outcome = .rename o neu := by
  cases outcome <;> cases h
  rfl

theorem RxOutcome.eq_of_renames {outcome : RxOutcome} {o : Obj} {neu : CStr}
    (h : outcome.renames = some (o, neu)) : outcome = .rename o neu := by
  cases outcome <;> cases h
  rfl

/-- What `rename` returns in a world. -/
def renameRc {β : Type} (B : Backend β) (disk : β) (o : Obj) (neu : CStr) : Int :=
  (B.call disk (.rename o.si o.path neu)).1

section
variable {β : Type} {B : Backend β} {view : β → Nat → Tree} {w : World β} {a : Act β} {o : Obj}
  {neu : CStr}

/-- Such an action is a rename of an alive object in the backend, on the table as it is. -/
theorem act_of_renames (h : a.renames B.dateText w.st = some (o, neu)) :
    (o ∈ w.st.objs ∧ o.alive = true) ∧ ∃ w1 txid, w1.st.objs = w.st.objs ∧
      w1.st.nextHandle = w.st.nextHandle ∧ w1.st.nStores = w.st.nStores ∧ w1.disk = w.disk ∧
      act B w a = renameObj B w1 txid o neu := by
  cases a with
  | control setup => cases h
  | outside disk => cases h
  | out chunk =>
    simp only [Act.renames] at h
    split_ifs at h with hrx hwhole hguard
    · have hplan := RxOutcome.eq_of_renames h
      have hplanned := PlannedRx.planRx (w.st.fill chunk).endRx
        (rxPayload (w.st.fill chunk).endRx)
      rw [hplan] at hplanned
      obtain ⟨hcode, ho, -⟩ := hplanned
      refine ⟨⟨(objByHandle_some ho).1, (objByHandle_some ho).2.1⟩,
        w.setSt (w.st.fill chunk).endRx, w.st.rxTxid, rfl, rfl, rfl, rfl, ?_⟩
      have hother : (w.st.fill chunk).endRx.rxCode ≠ opSendObject := by
        rw [hcode]
        decide
      rw [act, onOut_of_whole B hrx hwhole, completeRx_of_ne B (w := w.setSt (w.st.fill chunk).endRx) hother]
      exact congrArg (performRx B _ _) hplan
    · have hplan := Outcome.eq_of_renames h
      have hplanned := Planned.plan w.st (getLe16 (chunk.drop 6)) (paramsOf chunk)
        B.dateText
      rw [hplan] at hplanned
      obtain ⟨hcode, -, ho, -⟩ := hplanned
      rw [not_or, not_lt] at hguard
      refine ⟨⟨(objByHandle_some ho).1, (objByHandle_some ho).2.1⟩, w, getLe32 (chunk.drop 8), rfl,
        rfl, rfl, rfl, ?_⟩
      rw [act, onOut_of_inactive B (by simpa using hrx), dispatch_of_session B hguard.1 hguard.2,
        hplan]
      rfl

/-- A rename that is done is a rescan of the table with the new paths. -/
theorem renameObj_done (txid : UInt32) (h : renameRc B w.disk o neu = 0) :
    ∃ w2 : World β, w2.st.objs = retagPaths w.st.objs o.si o.path neu ∧
      w2.st.nextHandle = w.st.nextHandle ∧ w2.st.nStores = w.st.nStores ∧
      w2.disk = (B.call w.disk (.rename o.si o.path neu)).2 ∧
      (renameObj B w txid o neu).st = (rescan B w2).st := by
  unfold renameObj
  dsimp only
  split
  · exact ⟨(w.tell B (.rename o.si o.path neu)).setSt
      { w.st with objs := retagPaths w.st.objs o.si o.path neu }, rfl, rfl, rfl, rfl,
      World.respond_st ..⟩
  · next hne => exact absurd h hne

/-- A rename that the backend reports as done moves what is at the old path, with all that is below
it, over what is at the new one. -/
def RenamesTrees {β : Type} (B : Backend β) (view : β → Nat → Tree) : Prop :=
  ∀ disk o neu, renameRc B disk o neu = 0 →
    RenamedTrees (view disk) (view (B.call disk (.rename o.si o.path neu)).2) o.si o.path neu

/-- In every run, a rename or a move within a store that is answered with OK keeps the handles on
their objects exactly when no moved object has an earlier entry that gets its path. -/
theorem handles_kept_iff (hB : Holds B view) (hdepth : 4096 ≤ B.depth)
    (hren : RenamesTrees B view) {opts : MtpOpts} {disk : β} {acts : List (Act β)}
    (h : exec (next B) (build B opts disk) acts = some w)
    (hsync : Mirrors w.st.objs w.st.nStores (view w.disk))
    (ha : a.renames B.dateText w.st = some (o, neu)) (hok : renameRc B w.disk o neu = 0)
    (hlen : (act B w a).st.objs.length < 2 ^ 32 - 1) :
    HandlesKept o.si o.path neu w.st.objs (act B w a).st.objs ↔
      Unshadowed w.st.objs o.si o.path neu := by
  obtain ⟨⟨ho, halive⟩, w1, txid, hobjs, hnext, hstores, hdisk, hact⟩ := act_of_renames ha
  obtain ⟨_, ht⟩ := (mirrored_run hB hdepth h).table
  rw [← hdisk] at hok
  obtain ⟨w2, hobjs2, hnext2, hstores2, hdisk2, hst⟩ := renameObj_done txid hok
  have hfresh := refreshed_rescan hB hdepth w2
  have hsame := (Extends.rescan (P := fun _ => True) (w := w2) B (fun _ _ _ => trivial)
    (fun _ _ _ => trivial) trivial).same.nStores
  have hkeys := hfresh.keys
  have hmirrors := hfresh.mirrors
  rw [hsame, hstores2, hstores, hfresh.disk, hdisk2, hdisk] at hmirrors
  rw [hobjs2, hobjs] at hkeys
  rw [hact, hst] at hlen ⊢
  have hnum2 : Numbered w2.st.objs w2.st.nextHandle := by
    rw [hobjs2, hnext2, hobjs, hnext]
    exact numbered_retagged ht.numbered (.inr ⟨o.si, o.path, neu, rfl⟩)
  exact kept_iff_unshadowed hsync ht.numbered hmirrors (hfresh.numbered hnum2) (by omega)
    (hB.proper _) hkeys (hren w.disk o neu (hdisk ▸ hok)) ⟨o, ho, halive, rfl, rfl⟩

end

/-- Two files, of which one is deleted and the other renamed to its name. -/
def reusedNames : Nat → List CStr
  | 0 => [ascii "a", ascii "b"]
  | 1 => [ascii "b"]
  | _ => [ascii "a"]

def reusedTrees (disk si : Nat) : Tree := .files (if si = 0 then reusedNames disk else [])

def reusedRc (disk : Nat) (c : Call) : Int × Nat :=
  if disk = 0 ∧ c = .remove 0 (ascii "a") then (0, 1)
  else if disk = 1 ∧ c = .rename 0 (ascii "b") (ascii "a") then (0, 2)
  else (-1, disk)

def reusedBackend : Backend Nat := .ofTrees reusedTrees reusedRc

/-- The host deletes the first file, and begins to rename the second. -/
def reusedActs : List (Act Nat) :=
  [.out (Container.bytes ⟨1, opOpenSession, 1, u32le 1⟩),
    .out (Container.bytes ⟨1, opDeleteObject, 2, u32le 1⟩),
    .out (Container.bytes ⟨1, opSetObjectPropValue, 3, u32le 2 ++ u32le opcFilename.toUInt32⟩)]

/-- The name, as the data of the command. -/
def reusedName : Act Nat := .out (Container.bytes ⟨2, opSetObjectPropValue, 3, bstr (ascii "a")⟩)

def reusedStart : World Nat := build reusedBackend ⟨false, none, none, none, 1⟩ 0

def reusedWorld : World Nat := reusedActs.foldl (act reusedBackend) reusedStart

theorem reused_run : exec (next reusedBackend) reusedStart reusedActs = some reusedWorld := by
  rw [reusedActs, exec_cons, next_of_not_stuck _ (by decide), Option.bind_some, exec_cons,
    next_of_not_stuck _ (by decide), Option.bind_some, exec_cons,
    next_of_not_stuck _ (by decide)]
  rfl

/-- The second file, as the host knows it. -/
def reusedObj : Obj :=
  { handle := 2, parent := 0, size := 0, mtime := 0, fmt := fmtUndefined, isDir := false
    alive := true, si := 0, storage := storageId 0, path := ascii "b", name := ascii "b" }

theorem reused_renames :
    reusedName.renames reusedBackend.dateText reusedWorld.st = some (reusedObj, ascii "a") ∧
      renameRc reusedBackend reusedWorld.disk reusedObj (ascii "a") = 0 := by
  decide

/-- The rename is answered with OK, and the handle of the renamed file is lost. -/
theorem handles_not_kept :
    exec (next reusedBackend) reusedStart reusedActs = some reusedWorld ∧
      reusedName.renames reusedBackend.dateText reusedWorld.st = some (reusedObj, ascii "a") ∧
      renameRc reusedBackend reusedWorld.disk reusedObj (ascii "a") = 0 ∧
      ¬HandlesKept 0 (ascii "b") (ascii "a") reusedWorld.st.objs
        (act reusedBackend reusedWorld reusedName).st.objs := by
  refine ⟨reused_run, reused_renames.1, reused_renames.2, fun hkept => ?_⟩
  have hbefore : objByHandle reusedWorld.st.objs 2 = some reusedObj := by decide
  have hafter : objByHandle (act reusedBackend reusedWorld reusedName).st.objs 2 = none := by decide
  obtain ⟨o, ho, -⟩ := hkept.valid 2 0 (ascii "b") ⟨reusedObj, hbefore, rfl, rfl⟩
    fun hc => hc.2.2 (.refl _)
  rw [hafter] at ho
  cases ho

theorem reused_holds : Holds reusedBackend reusedTrees := by
  refine holds_ofTrees _ fun disk si => ?_
  unfold reusedTrees
  split
  · match disk with
    | 0 => exact Tree.files_proper (by decide) (by decide)
    | 1 => exact Tree.files_proper (by decide) (by decide)
    | _ + 2 => 
      exact (Tree.files_proper (by decide) (by decide) : (Tree.files [ascii "a"]).Proper)
  · exact Tree.files_proper (by simp) List.nodup_nil

theorem reused_renamesTrees : RenamesTrees reusedBackend reusedTrees := by
  intro disk o neu hok
  have hcall : disk = 1 ∧ Call.rename o.si o.path neu = .rename 0 (ascii "b") (ascii "a") := by
    by_contra hne
    have hrc : (reusedRc disk (.rename o.si o.path neu)).1 = 0 := hok
    rw [reusedRc, if_neg (by simp), if_neg hne] at hrc
    cases hrc
  obtain ⟨rfl, hcall⟩ := hcall
  obtain ⟨hsi, hpath, rfl⟩ := Call.rename.inj hcall
  rw [hsi, hpath]
  intro si' p'
  rw [show (reusedBackend.call 1 (.rename 0 (ascii "b") (ascii "a"))).2 = 2 from rfl]
  unfold reusedTrees movedIn
  by_cases h0 : si' = 0
  · simp only [h0, if_true, Tree.files_entry, reusedNames, List.mem_singleton]
    constructor
    · rintro rfl
      exact ⟨ascii "b", rfl, fun hc => hc.2.2 (.refl _), by decide⟩
    · rintro ⟨p, rfl, -, rfl⟩
      decide
  · simp [h0, Tree.files_entry]

theorem handles_kept_iff_sample :
    HandlesKept 0 (ascii "b") (ascii "a") reusedWorld.st.objs
        (act reusedBackend reusedWorld reusedName).st.objs ↔
      Unshadowed reusedWorld.st.objs 0 (ascii "b") (ascii "a") := by
  have hscan := (refreshed_rescan reused_holds (by decide)
    (World.ask reusedBackend (act reusedBackend reusedStart
      (.out (Container.bytes ⟨1, opOpenSession, 1, u32le 1⟩))) (.remove 0 (ascii "a"))).2).mirrors
  exact handles_kept_iff reused_holds (by decide) reused_renamesTrees reused_run hscan
    reused_renames.1 reused_renames.2 (by decide)

end Usbip.Mtp
