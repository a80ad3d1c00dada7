import Usbip.Mtp.Confined

/-! Where nothing gets stuck: a scan ends over every backend whose names are not empty and whose
paths fit, and it leaves parents with shorter paths, so that climbs and copies end as well. -/

namespace Usbip.Mtp

open Lib

/-- What a backend lists has an end, and a scan has room for it. -/
structure Shallow {β : Type} (B : Backend β) : Prop where
  nonempty : ∀ disk si path, ∀ n ∈ listed B disk si path, n ≠ []
  short : ListsShort B
  depth : 4096 ≤ B.depth

/-- A handle that stands for a path shorter than some length, as a parent. -/
def ParentBelow (objs : List Obj) (parent : UInt32) (len : Nat) : Prop :=
  parent = 0 ∨ ∃ d ∈ objs, d.handle = parent ∧ d.path.length < len

/-- Parents have shorter paths. -/
def ShorterParents (objs : List Obj) : Prop :=
  ∀ o ∈ objs, o.alive = true → ParentBelow objs o.parent o.path.length

section
variable {objs objs' : List Obj} {parent : UInt32} {len : Nat}

/-- Keys are all that a parent needs. -/
theorem ParentBelow.of_keys (hkeys : objs.map Obj.key <+: objs'.map Obj.key)
    (h : ParentBelow objs parent len) : ParentBelow objs' parent len := by
  rcases h with h0 | ⟨d, hd, hhandle, hlt⟩
  · exact .inl h0
  · obtain ⟨d', hd', hkey⟩ := List.mem_map.mp (hkeys.subset (List.mem_map_of_mem hd))
    rw [Obj.key, Obj.key, Prod.mk.injEq, Prod.mk.injEq] at hkey
    exact .inr ⟨d', hd', hkey.1.trans hhandle, hkey.2.2 ▸ hlt⟩

end

/-- A scan goes on, numbers its entries, and leaves parents with shorter paths. -/
structure Climbs {β : Type} (w w' : World β) : Prop where
  stuck : w'.stuck = w.stuck
  keys : w.st.objs.map Obj.key <+: w'.st.objs.map Obj.key
  numbered : Numbered w.st.objs w.st.nextHandle → Numbered w'.st.objs w'.st.nextHandle
  shorter : ShorterParents w.st.objs → ShorterParents w'.st.objs

namespace Climbs

variable {β : Type} {B : Backend β} {w w' w'' : World β} {si : Nat} {dir n : CStr}
  {parent : UInt32}

theorem refl (w : World β) : Climbs w w := ⟨rfl, List.prefix_rfl, id, id⟩

theorem trans (h1 : Climbs w w') (h2 : Climbs w' w'') : Climbs w w'' :=
  ⟨h2.stuck.trans h1.stuck, h1.keys.trans h2.keys, h2.numbered ∘ h1.numbered,
    h2.shorter ∘ h1.shorter⟩

theorem ask (w : World β) (c : Call) : Climbs w (w.ask B c).2 := ⟨rfl, List.prefix_rfl, id, id⟩

theorem upsert (w : World β) (si : Nat) {full : CStr} (name : CStr) {parent : UInt32} (info : Info)
    (hfull : full.length < 4096) (hparent : ParentBelow w.st.objs parent full.length) :
    Climbs w (w.upsert si full name parent info).2 := by
  refine ⟨rfl, objUpsert_keys, Numbered.objUpsert, fun hshorter o ho halive => ?_⟩
  rcases mem_objUpsert ho with rfl | ho
  · rw [(upserted_at hfull).2]
    exact hparent.of_keys objUpsert_keys
  · exact (hshorter o ho halive).of_keys objUpsert_keys

/-- The entry of a name, as a parent. -/
theorem parentBelow_upsert (w : World β) (si : Nat) {full : CStr} (name : CStr) (parent : UInt32)
    (info : Info) {len : Nat} (hfull : full.length < 4096) (hlen : full.length < len) :
    ParentBelow (w.upsert si full name parent info).2.st.objs
      (w.upsert si full name parent info).1 len := by
  have hfound := objByPath_objUpsert w.st.objs w.st.nextHandle si name parent info hfull si full
  rw [if_pos ⟨rfl, rfl⟩] at hfound
  obtain ⟨hmem, -, hpath⟩ := objByPath_some hfound
  exact .inr ⟨_, hmem, objUpsert_handle.symm, by rw [hpath]; exact hlen⟩

theorem scanName (si : Nat) {scan : World β → CStr → UInt32 → World β}
    (hscan : ∀ w p handle, dir.length < p.length → p.length < 4096 →
      ParentBelow w.st.objs handle (p.length + 1) → Climbs w (scan w p handle))
    (hn : n ≠ []) (hshort : (joinPath slash dir n).length < 4096)
    (hparent : ParentBelow w.st.objs parent (dir.length + 1)) :
    Climbs w (scanName B scan si dir parent w n) := by
  have hlt := length_lt_joinPath slash dir hn
  have hask := ask (B := B) w (.getInfo si (joinPath slash dir n))
  unfold Mtp.scanName
  rw [pathJoin_of_lt hshort]
  dsimp only
  split
  · exact hask
  · next info _ =>
    have hbelow : ParentBelow w.st.objs parent (joinPath slash dir n).length := by
      rcases hparent with h0 | ⟨d, hd, hhandle, hlen⟩
      · exact .inl h0
      · exact .inr ⟨d, hd, hhandle, by omega⟩
    have hup := hask.trans (.upsert _ si n info hshort hbelow)
    split
    · exact hup.trans (hscan _ _ _ hlt hshort
        (parentBelow_upsert _ si n parent info hshort (Nat.lt_succ_self _)))
    · exact hup

theorem scanNames {scan : World β → CStr → UInt32 → World β} {ns : List CStr}
    (hscan : ∀ w p handle, dir.length < p.length → p.length < 4096 →
      ParentBelow w.st.objs handle (p.length + 1) → Climbs w (scan w p handle))
    (hns : ∀ n ∈ ns, n ≠ [] ∧ (joinPath slash dir n).length < 4096)
    (hparent : ParentBelow w.st.objs parent (dir.length + 1)) :
    Climbs w (ns.foldl (Mtp.scanName B scan si dir parent) w) := by
  induction ns generalizing w with
  | nil => exact .refl w
  | cons n ns ih =>
    obtain ⟨hn, hns⟩ := List.forall_mem_cons.mp hns
    have hone := Climbs.scanName (B := B) si hscan hn.1 hn.2 hparent
    exact hone.trans (ih hns (hparent.of_keys hone.keys))

/-- Every directory has a longer path than the one that it is in. -/
theorem scanDir (hB : Shallow B) {fuel : Nat} (hfuel : 4096 ≤ fuel + dir.length)
    (hdir : dir.length < 4096) (hparent : ParentBelow w.st.objs parent (dir.length + 1)) :
    Climbs w (scanDir B si fuel w dir parent) := by
  induction fuel generalizing w dir parent with
  | zero => omega
  | succ fuel ih =>
    have hask := ask (B := B) w (.listdir si dir)
    refine hask.trans (scanNames (fun w p handle hlt hp hh => ih (by omega) hp hh) ?_
      (hparent.of_keys hask.keys))
    intro n hn
    obtain ⟨full, hfull, rfl⟩ := List.mem_map.mp ((List.perm_insertionSort _ _).mem_iff.mp hn)
    have hne := List.length_pos_of_ne_nil (hB.nonempty w.disk si dir full hfull)
    have hlen := hB.short w.disk si dir full hfull
    have hcut : (snprintf 256 full).length = min 255 full.length := List.length_take ..
    refine ⟨List.ne_nil_of_length_pos (by omega), ?_⟩
    rw [joinPath_eq_append, List.length_append] at hlen ⊢
    omega

theorem stores (hB : Shallow B) (l : List Nat) (w : World β) :
    Climbs w (l.foldl (fun w si => Mtp.scanDir B si B.depth w [] 0) w) := by
  induction l generalizing w with
  | nil => exact .refl w
  | cons si l ih =>
    exact (scanDir hB (by have := hB.depth; omega) (by decide) (.inl rfl)).trans (ih _)

end Climbs

/-! ### The numbers of a table -/

section
variable {β : Type} (B : Backend β)

theorem numbered_foldl {α : Type*} {f : World β → α → World β}
    (hf : ∀ w a, Numbered w.st.objs w.st.nextHandle →
      Numbered (f w a).st.objs (f w a).st.nextHandle) (l : List α) {w : World β}
    (h : Numbered w.st.objs w.st.nextHandle) :
    Numbered (l.foldl f w).st.objs (l.foldl f w).st.nextHandle := by
  induction l generalizing w with
  | nil => exact h
  | cons a l ih => exact ih (hf w a h)

theorem numbered_scanDir (si fuel : Nat) (w : World β) (dir : CStr) (parent : UInt32)
    (h : Numbered w.st.objs w.st.nextHandle) :
    Numbered (scanDir B si fuel w dir parent).st.objs
      (scanDir B si fuel w dir parent).st.nextHandle := by
  induction fuel generalizing w dir parent with
  | zero => exact h
  | succ fuel ih =>
    refine numbered_foldl (fun w name hw => ?_) _ h
    unfold Mtp.scanName
    dsimp only
    split
    · exact hw
    · split
      · exact ih _ _ _ hw.objUpsert
      · exact hw.objUpsert

/-- Whatever a backend lists, a rescan numbers what it adds. -/
theorem numbered_rescan {w : World β} (h : Numbered w.st.objs w.st.nextHandle) :
    Numbered (rescan B w).st.objs (rescan B w).st.nextHandle := by
  refine numbered_foldl (fun w si hw => numbered_scanDir B si B.depth w [] 0 hw) _ ?_
  exact h.of_map (by rw [World.setSt, List.map_map]; rfl)

theorem numbered_act {w : World β} (h : Numbered w.st.objs w.st.nextHandle) (a : Act β) :
    Numbered (act B w a).st.objs (act B w a).st.nextHandle := by
  by_cases ha : ∃ disk, a = .outside disk
  · obtain ⟨disk, rfl⟩ := ha
    exact h
  · cases course_act (w := w) B fun disk hd => ha ⟨disk, hd⟩ with
    | quiet hq =>
      rw [hq.objs, hq.nextHandle]
      exact h
    | @scan w1 objs hq hobjs hend =>
      have h1 : Numbered w1.st.objs w1.st.nextHandle := by
        rw [hq.objs, hq.nextHandle]
        exact h
      rw [hend.objs, hend.nextHandle]
      exact numbered_rescan B (w := w1.setSt { w1.st with objs }) (numbered_retagged h1 hobjs)

end

/-! ### Whole runs -/

/-- A numbered table whose parents have shorter paths. -/
structure Sane (st : MtpState) : Prop where
  numbered : Numbered st.objs st.nextHandle
  shorter : ShorterParents st.objs

section
variable {β : Type} {B : Backend β} {w w' : World β}

/-- The scan of a rescan, from a table in which nothing is alive. -/
theorem climbs_rescan (hB : Shallow B) (w : World β) :
    Climbs (w.setSt { w.st with objs := w.st.objs.map fun o => { o with alive := false } })
      ((List.range w.st.nStores).foldl (fun w si => scanDir B si B.depth w [] 0)
        (w.setSt { w.st with objs := w.st.objs.map fun o => { o with alive := false } })) :=
  .stores hB _ _

/-- A rescan ends, whatever the table was. -/
theorem stuck_rescan (hB : Shallow B) (w : World β) : (rescan B w).stuck = w.stuck :=
  (climbs_rescan hB w).stuck

theorem sane_rescan (hB : Shallow B) (hnum : Numbered w.st.objs w.st.nextHandle) :
    Sane (rescan B w).st := by
  have hscan := climbs_rescan hB w
  refine ⟨hscan.numbered ?_, hscan.shorter fun o ho halive => ?_⟩
  · exact hnum.of_map (by rw [World.setSt, List.map_map]; rfl)
  · obtain ⟨o', -, rfl⟩ := List.mem_map.mp ho
    cases halive

theorem Sane.descends {st : MtpState} (h : Sane st) (hlen : st.objs.length < 2 ^ 32) :
    Descends st.objs fun o => o.path.length := by
  intro o ho d hd halive _ hparent
  rcases h.shorter o ho halive with h0 | ⟨d', hd', hhandle, hlt⟩
  · exact absurd (hparent.symm.trans h0) (h.numbered.ne_zero hlen hd)
  · obtain rfl := h.numbered.eq_of_handle hlen hd' hd (hhandle.trans hparent)
    exact hlt

theorem Sane.quiet {P : Effect β → Prop} (h : Sane w.st) (hq : Quiet P w w') : Sane w'.st := by
  constructor
  · rw [hq.objs, hq.nextHandle]
    exact h.numbered
  · rw [hq.objs]
    exact h.shorter

/-- Every action leaves a sane table. -/
theorem Sane.act (hB : Shallow B) (h : Sane w.st) (a : Act β) : Sane (act B w a).st := by
  by_cases ha : ∃ disk, a = .outside disk
  · obtain ⟨disk, rfl⟩ := ha
    exact h
  · cases course_act (w := w) B fun disk hd => ha ⟨disk, hd⟩ with
    | quiet hq => exact h.quiet hq
    | @scan w1 objs hq hobjs hend =>
      have hnum := numbered_retagged (h.quiet hq).numbered hobjs
      exact (sane_rescan (w := w1.setSt { w1.st with objs }) hB hnum).quiet hend

end

end Usbip.Mtp
