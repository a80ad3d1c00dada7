import Usbip.Mtp.Tree

/-! A rescan of a tree: the table mirrors it.  The table is read through `obj_by_path`; a scan of
one part of the tree changes what is found there and nothing else. -/

namespace Usbip.Mtp

open Lib

/-- The handle that stands for a directory of a store, as a parent. -/
def ParentAt (objs : List Obj) (si : Nat) (dir : CStr) (handle : UInt32) : Prop :=
  if dir = [] then handle = 0
  else
    ∃ d, objByPath objs si dir = some d ∧ d.alive = true ∧ d.isDir = true ∧ d.handle = handle

/-- The table shows the name of a directory with what the tree tells of it. -/
structure Shows (T : Tree) (objs : List Obj) (si : Nat) (dir n : CStr) (o : Obj) : Prop where
  found : objByPath objs si (joinPath slash dir n) = some o
  alive : o.alive = true
  name : o.name = n
  parent : ParentAt objs si dir o.parent
  info : ∃ i, T.info (joinPath slash dir n) = some i ∧ o.isDir = i.isDir ∧ o.mtime = i.mtime ∧
    o.size = if i.isDir then 0 else i.size

theorem ParentAt.congr {objs objs' : List Obj} {si : Nat} {dir : CStr} {handle : UInt32}
    (h : ParentAt objs si dir handle)
    (hdir : dir ≠ [] → objByPath objs' si dir = objByPath objs si dir) :
    ParentAt objs' si dir handle := by
  unfold ParentAt at *
  split
  · next h0 => rwa [if_pos h0] at h
  · next h0 =>
    rw [if_neg h0] at h
    rwa [hdir h0]

theorem Shows.congr {T : Tree} {objs objs' : List Obj} {si : Nat} {dir n : CStr} {o : Obj}
    (h : Shows T objs si dir n o)
    (hp : objByPath objs' si (joinPath slash dir n) = objByPath objs si (joinPath slash dir n))
    (hdir : dir ≠ [] → objByPath objs' si dir = objByPath objs si dir) :
    Shows T objs' si dir n o :=
  { h with found := hp.trans h.found, parent := h.parent.congr hdir }

/-- A part of a store has been scanned, from the entries of `base`. -/
structure Scanned {β : Type} (view : β → Nat → Tree) (si : Nat) (base : CStr)
    (part : CStr → Prop) (w w' : World β) : Prop where
  stuck : w'.stuck = w.stuck
  disk : view w'.disk = view w.disk
  keys : w.st.objs.map Obj.key <+: w'.st.objs.map Obj.key
  numbered : Numbered w.st.objs w.st.nextHandle → Numbered w'.st.objs w'.st.nextHandle
  firsts : Firsts w.st.objs → Firsts w'.st.objs
  frame : ∀ si' p, ¬(si' = si ∧ part p) →
    objByPath w'.st.objs si' p = objByPath w.st.objs si' p
  shown : ∀ p, part p → ∃ dir n o, p = joinPath slash dir n ∧ (dir = base ∨ part dir) ∧
    (view w.disk si).Dir dir ∧ n ∈ (view w.disk si).ls dir ∧
    Shows (view w.disk si) w'.st.objs si dir n o

/-- No alive entry stands in a part of a store. -/
def Dead (objs : List Obj) (si : Nat) (part : CStr → Prop) : Prop :=
  ∀ p, part p → ∀ o, objByPath objs si p = some o → o.alive = false

namespace Scanned

variable {β : Type} {view : β → Nat → Tree} {si : Nat} {base : CStr} {w w' w'' : World β}

/-- A scan of nothing. -/
theorem refl (w : World β) : Scanned view si base (fun _ => False) w w :=
  ⟨rfl, rfl, List.prefix_rfl, id, id, fun _ _ _ => rfl, fun _ h => h.elim⟩

/-- Two scans one after the other, of parts that have nothing in common. -/
theorem append {base' : CStr} {part part' : CStr → Prop} (h : Scanned view si base part w w')
    (h' : Scanned view si base' part' w' w'') (hbase : base ≠ [] → ¬part' base)
    (hbase' : base' = base ∨ part base') (hdisjoint : ∀ p, part p → ¬part' p) :
    Scanned view si base (fun p => part p ∨ part' p) w w'' where
  stuck := h'.stuck.trans h.stuck
  disk := h'.disk.trans h.disk
  keys := h.keys.trans h'.keys
  numbered := h'.numbered ∘ h.numbered
  firsts := h'.firsts ∘ h.firsts
  frame si' p hp :=
    (h'.frame si' p fun hc => hp ⟨hc.1, .inr hc.2⟩).trans
      (h.frame si' p fun hc => hp ⟨hc.1, .inl hc.2⟩)
  shown p hp := by
    rcases hp with hp | hp
    · obtain ⟨dir, n, o, rfl, hd, hDir, hn, hs⟩ := h.shown p hp
      refine ⟨dir, n, o, rfl, hd.imp_right .inl, hDir, hn, hs.congr ?_ fun h0 => ?_⟩
      · exact h'.frame _ _ fun hc => hdisjoint _ hp hc.2
      · refine h'.frame _ _ fun hc => ?_
        rcases hd with rfl | hd
        · exact hbase h0 hc.2
        · exact hdisjoint _ hd hc.2
    · obtain ⟨dir, n, o, rfl, hd, hDir, hn, hs⟩ := h'.shown p hp
      rw [h.disk] at hDir hn hs
      refine ⟨dir, n, o, rfl, ?_, hDir, hn, hs⟩
      rcases hd with rfl | hd
      · exact hbase'.imp_right .inl
      · exact .inr (.inr hd)

theorem congr {part part' : CStr → Prop} (h : Scanned view si base part w w')
    (hpart : ∀ p, part p ↔ part' p) : Scanned view si base part' w w' := by
  obtain rfl : part = part' := funext fun p => propext (hpart p)
  exact h

end Scanned

/-! ### One name -/

section
variable {β : Type} {B : Backend β} {view : β → Nat → Tree} {si : Nat} {dir n : CStr} {w : World β}

/-- A question that changes no store. -/
theorem Scanned.ask {base : CStr} {c : Call} (hc : view (B.call w.disk c).2 = view w.disk) :
    Scanned view si base (fun _ => False) w (w.ask B c).2 :=
  ⟨rfl, hc, List.prefix_rfl, id, id, fun _ _ _ => rfl, fun _ h => h.elim⟩

/-- The entry that an upsert of a name writes. -/
theorem Scanned.upsert (w : World β) {i : Info} {parent : UInt32} (hT : (view w.disk si).Proper)
    (hdir : (view w.disk si).Dir dir) (hn : n ∈ (view w.disk si).ls dir)
    (hi : (view w.disk si).info (joinPath slash dir n) = some i)
    (hparent : ParentAt w.st.objs si dir parent)
    (hdead : Dead w.st.objs si (· = joinPath slash dir n)) :
    Scanned view si dir (· = joinPath slash dir n) w
      (w.upsert si (joinPath slash dir n) n parent i).2 := by
  have hfull := (hT.short dir hdir n hn).2
  have hlook := objByPath_objUpsert w.st.objs w.st.nextHandle si n parent i hfull
  refine ⟨rfl, rfl, objUpsert_keys, Numbered.objUpsert, fun h => h.objUpsert hfull (hdead _ rfl),
    fun si' p hp => (hlook si' p).trans (if_neg hp), ?_⟩
  rintro _ rfl
  refine ⟨dir, n, _, rfl, .inl rfl, hdir, hn, (hlook _ _).trans (if_pos ⟨rfl, rfl⟩), rfl,
    snprintf_of_lt (hT.short dir hdir n hn).1, hparent.congr fun _ => ?_, i, hi, rfl, rfl, rfl⟩
  refine (hlook si dir).trans (if_neg fun h => ?_)
  exact (length_lt_joinPath slash dir (hT.plain dir hdir n hn).1).ne (congrArg List.length h.2)

/-- The handle of the entry, as the parent of what is below. -/
theorem ParentAt.upsert {i : Info} {parent : UInt32} (hfull : (joinPath slash dir n).length < 4096)
    (hne : joinPath slash dir n ≠ []) (hd : i.isDir = true) :
    ParentAt (w.upsert si (joinPath slash dir n) n parent i).2.st.objs si (joinPath slash dir n)
      (w.upsert si (joinPath slash dir n) n parent i).1 := by
  rw [ParentAt, if_neg hne]
  exact ⟨_, (objByPath_objUpsert _ _ _ _ _ _ hfull si _).trans (if_pos ⟨rfl, rfl⟩), rfl, hd,
    objUpsert_handle.symm⟩

/-- One name of a directory, where the scan of the directory that it may be is right. -/
theorem Scanned.scanName (hB : Holds B view) {scan : World β → CStr → UInt32 → World β}
    {parent : UInt32} (hdir : (view w.disk si).Dir dir) (hn : n ∈ (view w.disk si).ls dir)
    (hscan : ∀ w' handle, view w'.disk = view w.disk →
      (view w.disk si).Dir (joinPath slash dir n) →
      ParentAt w'.st.objs si (joinPath slash dir n) handle →
      Dead w'.st.objs si ((view w.disk si).Below (joinPath slash dir n)) →
      Scanned view si (joinPath slash dir n) ((view w.disk si).Below (joinPath slash dir n)) w'
        (scan w' (joinPath slash dir n) handle))
    (hparent : ParentAt w.st.objs si dir parent)
    (hdead : Dead w.st.objs si ((view w.disk si).Part dir n)) :
    Scanned view si dir ((view w.disk si).Part dir n) w (scanName B scan si dir parent w n) := by
  have hT := hB.proper w.disk si
  have hfull := (hT.short dir hdir n hn).2
  have hne : joinPath slash dir n ≠ [] := joinPath_ne_nil dir (hT.plain dir hdir n hn).1
  have hlt := length_lt_joinPath slash dir (hT.plain dir hdir n hn).1
  have hask : Scanned view si dir (fun _ => False) w
      (w.ask B (.getInfo si (joinPath slash dir n))).2 := .ask (hB.getInfo_view ..)
  have hfound : (w.ask B (.getInfo si (joinPath slash dir n))).1 =
      (view w.disk si).info (joinPath slash dir n) := hB.getInfo w.disk si dir hdir n hn
  unfold Mtp.scanName
  rw [pathJoin_of_lt hfull]
  dsimp only
  rw [hfound]
  cases hi : (view w.disk si).info (joinPath slash dir n) with
  | none =>
    refine hask.congr fun p => ⟨False.elim, ?_⟩
    rintro ⟨i, hi', -⟩
    rw [hi] at hi'
    cases hi'
  | some i =>
    dsimp only
    have hnew : Scanned view si dir (· = joinPath slash dir n) w
        ((w.ask B (.getInfo si (joinPath slash dir n))).2.upsert si (joinPath slash dir n) n
          parent i).2 := by
      have hup : Scanned view si dir (· = joinPath slash dir n)
          (w.ask B (.getInfo si (joinPath slash dir n))).2
          ((w.ask B (.getInfo si (joinPath slash dir n))).2.upsert si (joinPath slash dir n) n
            parent i).2 := by
        apply Scanned.upsert
        all_goals try rw [hask.disk]
        · exact hT
        · exact hdir
        · exact hn
        · exact hi
        · exact hparent
        · exact fun p hp => hdead p ⟨i, hi, .inl hp⟩
      have hall := hask.append hup
        (fun _ h => hlt.ne (congrArg List.length h)) (.inl rfl) fun _ h => h.elim
      exact hall.congr fun p => by rw [false_or]
    split
    · next hd =>
      have hsub : (view w.disk si).Dir (joinPath slash dir n) := .sub hdir hn hi hd
      have hne' : ∀ p, (view w.disk si).Below (joinPath slash dir n) p →
          p ≠ joinPath slash dir n := by
        rintro p hp rfl
        exact lt_irrefl _ (hT.lt_of_below hsub hp)
      have hrest := hscan _ _ hnew.disk hsub (ParentAt.upsert hfull hne hd) fun p hp o ho => by
        rw [hnew.frame si p fun hc => hne' p hp hc.2] at ho
        exact hdead p ⟨i, hi, .inr ⟨hd, hp⟩⟩ o ho
      refine (hnew.append hrest (fun _ h => ?_) (.inr rfl) fun p hp hq => hne' p hq hp).congr
        fun p => ⟨fun h => ⟨i, hi, h.imp_right fun hp => ⟨hd, hp⟩⟩, ?_⟩
      · exact absurd (hT.lt_of_below hsub h) (by omega)
      · rintro ⟨i', -, h⟩
        exact h.imp_right And.right
    · next hd =>
      refine hnew.congr fun p => ⟨fun hp => ⟨i, hi, .inl hp⟩, ?_⟩
      rintro ⟨i', hi', hp | ⟨hd', -⟩⟩
      · exact hp
      · obtain rfl : i = i' := Option.some.inj (hi.symm.trans hi')
        exact absurd hd' hd

/-- The names of a directory, one after the other. -/
theorem Scanned.scanNames (hB : Holds B view) {scan : World β → CStr → UInt32 → World β}
    {parent : UInt32} {ns : List CStr} (hdir : (view w.disk si).Dir dir)
    (hns : ∀ n ∈ ns, n ∈ (view w.disk si).ls dir) (hnodup : ns.Nodup)
    (hscan : ∀ n ∈ ns, ∀ w' handle, view w'.disk = view w.disk →
      (view w.disk si).Dir (joinPath slash dir n) →
      ParentAt w'.st.objs si (joinPath slash dir n) handle →
      Dead w'.st.objs si ((view w.disk si).Below (joinPath slash dir n)) →
      Scanned view si (joinPath slash dir n) ((view w.disk si).Below (joinPath slash dir n)) w'
        (scan w' (joinPath slash dir n) handle))
    (hparent : ParentAt w.st.objs si dir parent)
    (hdead : ∀ n ∈ ns, Dead w.st.objs si ((view w.disk si).Part dir n)) :
    Scanned view si dir (fun p => ∃ n ∈ ns, (view w.disk si).Part dir n p) w
      (ns.foldl (Mtp.scanName B scan si dir parent) w) := by
  induction ns generalizing w with
  | nil => exact (Scanned.refl w).congr fun p => by simp
  | cons n ns ih =>
    have hT := hB.proper w.disk si
    obtain ⟨hn, hns⟩ := List.forall_mem_cons.mp hns
    obtain ⟨hfresh, hnodup⟩ := List.nodup_cons.mp hnodup
    obtain ⟨hdeadn, hdead⟩ := List.forall_mem_cons.mp hdead
    have hone := Scanned.scanName hB hdir hn (hscan n List.mem_cons_self) hparent hdeadn
    have hother : ∀ p, (view w.disk si).Part dir n p →
        ¬∃ n' ∈ ns, (view w.disk si).Part dir n' p := by
      rintro p hp ⟨n', hn', hp'⟩
      exact hfresh (hT.part_unique hdir hn (hns n' hn') hp hp' ▸ hn')
    have hlt : ∀ n', n' ∈ (view w.disk si).ls dir → ¬(view w.disk si).Part dir n' dir :=
      fun n' hn' hp => lt_irrefl _ (hT.lt_of_part hdir hn' hp)
    have hrest := ih (w := Mtp.scanName B scan si dir parent w n)
    rw [hone.disk] at hrest
    refine (hone.append (hrest hdir hns hnodup
      (fun n' hn' => hscan n' (List.mem_cons_of_mem n hn')) (hparent.congr fun _ => ?_)
      fun n' hn' p hp o ho => ?_) ?_ (.inl rfl) hother).congr fun p => by simp
    · exact hone.frame si dir fun hc => hlt n hn hc.2
    · rw [hone.frame si p fun hc => hother p hc.2 ⟨n', hn', hp⟩] at ho
      exact hdead n' hn' p hp o ho
    · rintro - ⟨n', hn', hp⟩
      exact hlt n' (hns n' hn') hp

/-- What a directory emits, in the order of the scan: the same names. -/
theorem sortNames_perm {names : List CStr} (h : ∀ n ∈ names, n.length < 256) :
    (sortNames names).Perm names := by
  have hmap : names.map (snprintf 256) = names := by
    rw [List.map_congr_left fun n hn => snprintf_of_lt (h n hn), List.map_id']
  rw [sortNames, hmap]
  exact List.perm_insertionSort _ names

/-- A directory. A path has fewer directories than bytes, so the scan is never too deep. -/
theorem Scanned.scanDir (hB : Holds B view) {parent : UInt32} {fuel : Nat}
    (hfuel : 4096 ≤ fuel + dir.length) (hdir : (view w.disk si).Dir dir)
    (hparent : ParentAt w.st.objs si dir parent)
    (hdead : Dead w.st.objs si ((view w.disk si).Below dir)) :
    Scanned view si dir ((view w.disk si).Below dir) w (scanDir B si fuel w dir parent) := by
  induction fuel generalizing w dir parent with
  | zero => exact absurd ((hB.proper w.disk si).dir_length hdir) (by omega)
  | succ fuel ih =>
    have hT := hB.proper w.disk si
    have hask : Scanned view si dir (fun _ => False) w (w.ask B (.listdir si dir)).2 :=
      .ask (hB.listdir_view ..)
    have hnames : (w.ask B (.listdir si dir)).1 = (view w.disk si).ls dir :=
      hB.listdir w.disk si dir hdir
    have hperm := sortNames_perm fun n hn => (hT.short dir hdir n hn).1
    have hfold := @Scanned.scanNames β B view si dir (w.ask B (.listdir si dir)).2 hB
      (Mtp.scanDir B si fuel) parent (sortNames ((view w.disk si).ls dir))
    rw [hask.disk] at hfold
    have hstep : Mtp.scanDir B si (fuel + 1) w dir parent =
        (sortNames ((view w.disk si).ls dir)).foldl
          (Mtp.scanName B (Mtp.scanDir B si fuel) si dir parent) (w.ask B (.listdir si dir)).2 := by
      rw [← hnames]
      rfl
    rw [hstep]
    have hbelow : ∀ n ∈ sortNames ((view w.disk si).ls dir), ∀ p, (view w.disk si).Part dir n p →
        (view w.disk si).Below dir p :=
      fun n hn p hp => Tree.below_iff.mpr ⟨n, hperm.mem_iff.mp hn, hp⟩
    refine (hask.append (hfold hdir (fun n hn => hperm.mem_iff.mp hn)
      (hperm.nodup_iff.mpr (hT.nodup dir hdir)) (fun n hn w' handle hv hsub hp hd => ?_) hparent
      fun n hn p hp => hdead p (hbelow n hn p hp)) ?_ (.inl rfl) fun p h => h.elim).congr
      fun p => ?_
    · have hrec := @ih (joinPath slash dir n) w' handle
      rw [hv] at hrec
      have := length_lt_joinPath slash dir
        (hT.plain dir hdir n (hperm.mem_iff.mp hn)).1
      exact hrec (by omega) hsub hp hd
    · rintro - ⟨n, hn, hp⟩
      exact lt_irrefl _ (hT.lt_of_below hdir (hbelow n hn dir hp))
    · rw [false_or, Tree.below_iff]
      exact exists_congr fun n => and_congr_left' hperm.mem_iff

end

/-! ### All the stores -/

/-- The table mirrors the trees of the stores: every entry is shown, and nothing else is alive. -/
structure Mirrors (objs : List Obj) (nStores : Nat) (V : Nat → Tree) : Prop where
  shown : ∀ si < nStores, ∀ p, (V si).Entry p → ∃ dir n o, p = joinPath slash dir n ∧
    (V si).Dir dir ∧ n ∈ (V si).ls dir ∧ Shows (V si) objs si dir n o
  alive : ∀ o ∈ objs, o.alive = true → o.si < nStores ∧ (V o.si).Entry o.path
  firsts : Firsts objs

/-- What a rescan of some stores does to the table. -/
structure Rescanned {β : Type} (view : β → Nat → Tree) (stores : List Nat) (w w' : World β) :
    Prop where
  stuck : w'.stuck = w.stuck
  disk : view w'.disk = view w.disk
  keys : w.st.objs.map Obj.key <+: w'.st.objs.map Obj.key
  numbered : Numbered w.st.objs w.st.nextHandle → Numbered w'.st.objs w'.st.nextHandle
  firsts : Firsts w.st.objs → Firsts w'.st.objs
  frame : ∀ si p, ¬(si ∈ stores ∧ (view w.disk si).Entry p) →
    objByPath w'.st.objs si p = objByPath w.st.objs si p
  shown : ∀ si ∈ stores, ∀ p, (view w.disk si).Entry p → ∃ dir n o, p = joinPath slash dir n ∧
    (view w.disk si).Dir dir ∧ n ∈ (view w.disk si).ls dir ∧
    Shows (view w.disk si) w'.st.objs si dir n o

section
variable {β : Type} {B : Backend β} {view : β → Nat → Tree} {w : World β}

theorem Rescanned.stores (hB : Holds B view) (hdepth : 4096 ≤ B.depth) {stores : List Nat}
    (hnodup : stores.Nodup) (hdead : ∀ si ∈ stores, Dead w.st.objs si (view w.disk si).Entry) :
    Rescanned view stores w (stores.foldl (fun w si => scanDir B si B.depth w [] 0) w) := by
  induction stores generalizing w with
  | nil =>
    exact ⟨rfl, rfl, List.prefix_rfl, id, id, fun _ _ _ => rfl, fun si h => absurd h (by simp)⟩
  | cons si stores ih =>
    obtain ⟨hfresh, hnodup⟩ := List.nodup_cons.mp hnodup
    obtain ⟨hdeadsi, hdead⟩ := List.forall_mem_cons.mp hdead
    have hone : Scanned view si [] (view w.disk si).Entry w (scanDir B si B.depth w [] 0) :=
      .scanDir hB (by simpa using hdepth) .root rfl hdeadsi
    have hrest := ih (w := scanDir B si B.depth w [] 0) hnodup fun si' hsi' p hp o ho => by
      rw [hone.disk] at hp
      rw [hone.frame si' p fun hc => hfresh (hc.1 ▸ hsi')] at ho
      exact hdead si' hsi' p hp o ho
    have hV := hone.disk
    refine ⟨hrest.stuck.trans hone.stuck, hrest.disk.trans hV, hone.keys.trans hrest.keys,
      hrest.numbered ∘ hone.numbered, hrest.firsts ∘ hone.firsts, fun si' p hp => ?_,
      fun si' hsi' p hp => ?_⟩
    · have hframe := hrest.frame si' p
      rw [hV] at hframe
      refine (hframe fun hc => hp ⟨List.mem_cons_of_mem si hc.1, hc.2⟩).trans
        (hone.frame si' p fun hc => hp ⟨hc.1 ▸ List.mem_cons_self, hc.1 ▸ hc.2⟩)
    · rcases List.mem_cons.mp hsi' with rfl | hsi'
      · obtain ⟨dir, n, o, rfl, -, hDir, hn, hs⟩ := hone.shown p hp
        have hsame := fun p => hrest.frame si' p fun hc => hfresh hc.1
        exact ⟨dir, n, o, rfl, hDir, hn, hs.congr (hsame _) fun _ => hsame _⟩
      · have hshown := hrest.shown si' hsi' p
        rw [hV] at hshown
        exact hshown hp

/-- A rescan, whatever the table was. -/
structure Refreshed (view : β → Nat → Tree) (w w' : World β) : Prop where
  stuck : w'.stuck = w.stuck
  disk : view w'.disk = view w.disk
  keys : w.st.objs.map Obj.key <+: w'.st.objs.map Obj.key
  numbered : Numbered w.st.objs w.st.nextHandle → Numbered w'.st.objs w'.st.nextHandle
  mirrors : Mirrors w'.st.objs w'.st.nStores (view w'.disk)

theorem refreshed_rescan (hB : Holds B view) (hdepth : 4096 ≤ B.depth) (w : World β) :
    Refreshed view w (rescan B w) := by
  have hsame : (rescan B w).st.nStores = w.st.nStores :=
    (Extends.rescan (P := fun _ => True) B (fun _ _ _ => trivial) (fun _ _ _ => trivial)
      trivial).same.nStores
  have hdead : ∀ o ∈ w.st.objs.map fun o => { o with alive := false }, o.alive = false := by
    intro o ho
    obtain ⟨o', -, rfl⟩ := List.mem_map.mp ho
    rfl
  have hkeys : (w.st.objs.map fun o => { o with alive := false }).map Obj.key =
      w.st.objs.map Obj.key := by
    rw [List.map_map]
    rfl
  have hscan := Rescanned.stores (w := w.setSt
    { w.st with objs := w.st.objs.map fun o => { o with alive := false } }) hB hdepth
    (List.nodup_range (n := w.st.nStores))
    fun si _ p _ o ho => hdead o (objByPath_some ho).1
  have hfirsts := hscan.firsts fun o ho halive => absurd halive (by simp [hdead o ho])
  refine ⟨hscan.stuck, hscan.disk, hkeys ▸ hscan.keys, fun hnum => hscan.numbered ?_, ?_⟩
  · exact hnum.of_map (by rw [World.setSt, List.map_map]; rfl)
  · have hdisk : view (rescan B w).disk = view w.disk := hscan.disk
    rw [hdisk, hsame]
    refine ⟨fun si hsi => hscan.shown si (List.mem_range.mpr hsi), fun o ho halive => ?_, hfirsts⟩
    by_contra hc
    have hfound := hscan.frame o.si o.path fun h => hc ⟨List.mem_range.mp h.1, h.2⟩
    rw [hfirsts o ho halive] at hfound
    exact absurd halive (by simp [hdead o (objByPath_some hfound.symm).1])

end

end Usbip.Mtp
