import Usbip.Lib.Run
import Usbip.Mtp.Course
import Usbip.Mtp.Scan

/-! Over whole runs the table mirrors the tree of every rescan, so parents lead to the root, and the
loops of `is_descendant` and `copy_tree` end. -/

namespace Usbip.Mtp

open Lib

/-! ### Parents -/

/-- From an alive entry to its parent a depth goes down. -/
def Descends (objs : List Obj) (depth : Obj → Nat) : Prop :=
  ∀ o ∈ objs, ∀ d ∈ objs, o.alive = true → d.alive = true → o.parent = d.handle → depth d < depth o

section
variable {objs : List Obj} {depth : Obj → Nat}

theorem climb_ends (h : Descends objs depth) (ancestor : UInt32) {fuel : Nat} {start : Option Obj}
    (hstart : ∀ o, start = some o → o ∈ objs ∧ o.alive = true ∧
      objs.countP (fun b => depth b < depth o) < fuel) :
    climb objs ancestor fuel start ≠ none := by
  induction fuel generalizing start with
  | zero =>
    cases start with
    | none => simp [climb]
    | some o => exact absurd (hstart o rfl).2.2 (Nat.not_lt_zero _)
  | succ fuel ih =>
    cases start with
    | none => simp [climb]
    | some o =>
      obtain ⟨ho, halive, hcount⟩ := hstart o rfl
      unfold climb
      split
      · simp
      · split
        · simp
        · refine ih fun d hd => ?_
          obtain ⟨hmem, hdalive, hhandle⟩ := objByHandle_some hd
          have hlt := h o ho d hmem halive hdalive hhandle.symm
          have := countP_lt_countP (p := fun b => decide (depth b < depth d))
            (q := fun b => decide (depth b < depth o))
            (fun b _ hb => decide_eq_true (lt_trans (of_decide_eq_true hb) hlt)) hmem
            (decide_eq_false (lt_irrefl _)) (decide_eq_true hlt)
          exact ⟨hmem, hdalive, by omega⟩

theorem isDescendant_ends (h : Descends objs depth) (handle ancestor : UInt32) :
    isDescendant objs handle ancestor ≠ none :=
  climb_ends h ancestor fun _ ho =>
    ⟨(objByHandle_some ho).1, (objByHandle_some ho).2.1,
      Nat.lt_succ_of_le List.countP_le_length⟩

/-- A fold of steps that keep the table and get stuck nowhere. -/
theorem stuck_foldl {α β : Type} {f : World β → α → World β} {l : List α} {w : World β}
    (hf : ∀ w', w'.st.objs = objs → ∀ a ∈ l,
      (f w' a).st.objs = objs ∧ (f w' a).stuck = w'.stuck) (hw : w.st.objs = objs) :
    (l.foldl f w).stuck = w.stuck := by
  induction l generalizing w with
  | nil => rfl
  | cons a l ih =>
    obtain ⟨hobjs, hstuck⟩ := hf w hw a List.mem_cons_self
    exact (ih (fun w' hw' b hb => hf w' hw' b (List.mem_cons_of_mem a hb)) hobjs).trans hstuck

theorem copyTree_ends {β : Type} {B : Backend β} (h : Descends objs depth) (dsi : Nat) {fuel : Nat}
    {w : World β} (hw : w.st.objs = objs) {o : Obj} (ho : o ∈ objs) (halive : o.alive = true)
    (hcount : objs.countP (fun b => depth o < depth b) < fuel) (dest name : CStr) :
    (copyTree B dsi fuel w o dest name).stuck = w.stuck := by
  induction fuel generalizing w o dest name with
  | zero => exact absurd hcount (Nat.not_lt_zero _)
  | succ fuel ih =>
    unfold copyTree
    dsimp only
    split
    · refine stuck_foldl (w := w.tell B (.makeDir dsi (pathJoin 8192 dest name)))
        (f := fun w child => if child.alive && child.parent == o.handle then
          copyTree B dsi fuel w child (pathJoin 8192 dest name) child.name else w)
        (fun w' hw' c hc => ?_) hw
      replace hc : c ∈ objs := hw ▸ hc
      split
      · next hchild =>
        rw [Bool.and_eq_true, beq_iff_eq] at hchild
        -- the child is deeper, so fewer entries are deeper than it
        have hlt := h c hc o ho hchild.1 halive hchild.2
        have := countP_lt_countP (p := fun b => decide (depth c < depth b))
          (q := fun b => decide (depth o < depth b))
          (fun b _ hb => decide_eq_true (lt_trans hlt (of_decide_eq_true hb))) hc
          (decide_eq_false (lt_irrefl _)) (decide_eq_true hlt)
        exact ⟨(Quiet.copyTree B hw' dsi fuel c _ c.name).objs.trans hw',
          ih hw' hc hchild.1 (by omega) _ c.name⟩
      · exact ⟨hw', rfl⟩
    · rfl

end

/-! ### A table that mirrors trees -/

section
variable {objs : List Obj} {nextHandle : UInt32} {nStores : Nat} {V : Nat → Tree}

/-- Where an alive entry stands in the tree, and what its parent is. -/
theorem Mirrors.placed (h : Mirrors objs nStores V) {o : Obj} (ho : o ∈ objs)
    (halive : o.alive = true) :
    ∃ dir, (V o.si).Dir dir ∧ o.name ∈ (V o.si).ls dir ∧ o.path = joinPath slash dir o.name ∧
      Shows (V o.si) objs o.si dir o.name o := by
  obtain ⟨hsi, hentry⟩ := h.alive o ho halive
  obtain ⟨dir, n, o', hpath, hDir, hn, hs⟩ := h.shown o.si hsi o.path hentry
  obtain rfl : o' = o := by
    have hfound := hs.found
    rw [← hpath, h.firsts o ho halive] at hfound
    exact (Option.some.inj hfound).symm
  obtain rfl : o'.name = n := hs.name
  exact ⟨dir, hDir, hn, hpath, hs⟩

/-- The paths of parents are shorter. -/
theorem Mirrors.descends (h : Mirrors objs nStores V) (hV : ∀ si, (V si).Proper)
    (hnum : Numbered objs nextHandle) (hlen : objs.length < 2 ^ 32) :
    Descends objs fun o => o.path.length := by
  intro o ho d hd halive hdalive hparent
  obtain ⟨dir, hDir, hn, hpath, hs⟩ := h.placed ho halive
  have hlt := length_lt_joinPath slash dir ((hV o.si).plain dir hDir _ hn).1
  have hat := hs.parent
  rw [ParentAt, hparent] at hat
  split at hat
  · exact absurd hat (hnum.ne_zero hlen hd)
  · obtain ⟨d', hd', -, -, hhandle⟩ := hat
    obtain ⟨hmem, -, rfl⟩ := objByPath_some hd'
    obtain rfl := hnum.eq_of_handle hlen hmem hd hhandle
    exact hlt.trans_eq (congrArg List.length hpath.symm)

end

/-! ### Whole runs -/

/-- A table is numbered and mirrors trees. -/
structure Settled (V : Nat → Tree) (st : MtpState) : Prop where
  numbered : Numbered st.objs st.nextHandle
  mirrors : Mirrors st.objs st.nStores V

/-- What every rescan leaves is settled, and the table is as some rescan has left it. -/
structure Mirrored {β : Type} (view : β → Nat → Tree) (w : World β) : Prop where
  table : ∃ disk, Settled (view disk) w.st
  scans : ∀ st disk, .rescanned st disk ∈ w.log → Settled (view disk) st

section
variable {β : Type} {B : Backend β} {view : β → Nat → Tree} {w w' : World β}

/-- What is quiet keeps a table settled. -/
theorem Settled.quiet {P : Effect β → Prop} {V : Nat → Tree} (h : Settled V w.st)
    (hq : Quiet P w w') : Settled V w'.st := by
  constructor
  · rw [hq.objs, hq.nextHandle]
    exact h.numbered
  · rw [hq.objs, hq.nStores]
    exact h.mirrors

theorem Mirrored.quiet {P : Effect β → Prop} (h : Mirrored view w) (hq : Quiet P w w')
    (hP : ∀ st disk, ¬P (.rescanned st disk)) : Mirrored view w' := by
  refine ⟨h.table.imp fun _ ht => ht.quiet hq, fun st disk he => ?_⟩
  obtain ⟨es, hes, hall⟩ := hq.logs.log
  rw [hes] at he
  rcases List.mem_append.mp he with he | he
  · exact h.scans st disk he
  · exact absurd (hall _ he) (hP st disk)

/-- A rescan mends any numbered table. -/
theorem Mirrored.rescan (hB : Holds B view) (hdepth : 4096 ≤ B.depth)
    (hscans : ∀ st disk, .rescanned st disk ∈ w.log → Settled (view disk) st)
    (hnum : Numbered w.st.objs w.st.nextHandle) : Mirrored view (rescan B w) := by
  have hfresh := refreshed_rescan hB hdepth w
  have hend : Settled (view (Mtp.rescan B w).disk) (Mtp.rescan B w).st :=
    ⟨hfresh.numbered hnum, hfresh.mirrors⟩
  refine ⟨⟨_, hend⟩, fun st disk he => ?_⟩
  have hext := Extends.rescan (w := w) B (P := fun e => ∀ st disk, e = .rescanned st disk →
    Settled (view disk) st) (fun _ _ _ _ _ => nofun) (fun _ _ _ _ _ => nofun)
    (by rintro st disk ⟨⟩; exact hend)
  exact hext.logs.all (fun e he st disk heq => hscans st disk (heq ▸ he)) _ he st disk rfl

theorem numbered_retagged {objs objs' : List Obj} {nextHandle : UInt32}
    (h : Numbered objs nextHandle) (hr : Retagged objs objs') : Numbered objs' nextHandle := by
  rcases hr with rfl | ⟨si, old, neu, rfl⟩
  · exact h
  · refine h.of_map ?_
    rw [retagPaths, List.map_map]
    exact List.map_congr_left fun o _ => by dsimp only [Function.comp_apply]; split <;> rfl

theorem Mirrored.act (hB : Holds B view) (hdepth : 4096 ≤ B.depth) (h : Mirrored view w)
    (a : Act β) : Mirrored view (act B w a) := by
  by_cases ha : ∃ disk, a = .outside disk
  · obtain ⟨disk, rfl⟩ := ha
    exact ⟨h.table, h.scans⟩
  · cases course_act (w := w) B fun disk hd => ha ⟨disk, hd⟩ with
    | quiet hq => exact h.quiet hq fun _ _ => id
    | @scan w1 objs hq hobjs hend =>
      have h1 := h.quiet hq fun _ _ => id
      obtain ⟨disk, ht⟩ := h1.table
      exact (Mirrored.rescan (w := w1.setSt { w1.st with objs }) hB hdepth h1.scans
        (numbered_retagged ht.numbered hobjs)).quiet hend fun _ _ => id

/-- Over a run, from the scan at the start on. -/
theorem mirrored_run (hB : Holds B view) (hdepth : 4096 ≤ B.depth) {opts : MtpOpts} {disk : β}
    {acts : List (Act β)} (h : exec (next B) (build B opts disk) acts = some w) :
    Mirrored view w := by
  refine exec_invariant (I := Mirrored view) (fun w a w' hw hstep => ?_) ?_ h
  · obtain ⟨-, rfl⟩ := next_some B hstep
    exact hw.act hB hdepth a
  · exact .rescan hB hdepth (fun st disk he => absurd he (by simp)) .nil

/-- The alive entries of a table stand one for one for the entries of the trees, their handles tell
them apart, and parents are directories of the same store. -/
structure OneToOne (objs : List Obj) (nStores : Nat) (V : Nat → Tree) : Prop where
  bijection : Set.BijOn (fun o => (o.si, o.path)) {o | o ∈ objs ∧ o.alive = true}
    {e | e.1 < nStores ∧ (V e.1).Entry e.2}
  nonzero : ∀ o ∈ objs, o.alive = true → o.handle ≠ 0
  distinct : ∀ o ∈ objs, ∀ o' ∈ objs, o.alive = true → o'.alive = true → o.handle = o'.handle →
    o = o'
  parent : ∀ o ∈ objs, o.alive = true → ∃ dir n, Plain slash n ∧ o.path = joinPath slash dir n ∧
    (dir = [] ∧ o.parent = 0 ∨ ∃ d ∈ objs, d.alive = true ∧ d.isDir = true ∧ d.si = o.si ∧
      d.path = dir ∧ o.parent = d.handle)

theorem Settled.oneToOne {V : Nat → Tree} {st : MtpState} (h : Settled V st)
    (hV : ∀ si, (V si).Proper) (hlen : st.objs.length < 2 ^ 32) :
    OneToOne st.objs st.nStores V where
  bijection := by
    refine ⟨fun o ho => h.mirrors.alive o ho.1 ho.2, fun o ho o' ho' heq => ?_, ?_⟩
    · have hsame := h.mirrors.firsts o ho.1 ho.2
      rw [(Prod.mk.inj heq).1, (Prod.mk.inj heq).2, h.mirrors.firsts o' ho'.1 ho'.2] at hsame
      exact (Option.some.inj hsame).symm
    · rintro ⟨si, p⟩ ⟨hsi, hp⟩
      obtain ⟨dir, n, o, rfl, -, -, hs⟩ := h.mirrors.shown si hsi p hp
      obtain ⟨ho, rfl, hpath⟩ := objByPath_some hs.found
      exact ⟨o, ⟨ho, hs.alive⟩, Prod.ext rfl hpath⟩
  nonzero o ho _ := h.numbered.ne_zero hlen ho
  distinct o ho o' ho' _ _ heq := h.numbered.eq_of_handle hlen ho ho' heq
  parent o ho halive := by
    obtain ⟨dir, hDir, hn, hpath, hs⟩ := h.mirrors.placed ho halive
    refine ⟨dir, o.name, (hV o.si).plain dir hDir _ hn, hpath, ?_⟩
    have hparent := hs.parent
    unfold ParentAt at hparent
    split at hparent
    · next h0 => exact .inl ⟨h0, hparent⟩
    · obtain ⟨d, hd, hdalive, hdir, hhandle⟩ := hparent
      obtain ⟨hmem, hsi, hdpath⟩ := objByPath_some hd
      exact .inr ⟨d, hmem, hdalive, hdir, hsi, hdpath, hhandle.symm⟩

/-- In every run over a backend that holds proper trees: no scan gets stuck, what every rescan
leaves is one to one with the trees, and on every table that is reached the parents lead to the
root, so that `is_descendant` and `copy_tree` end. -/
theorem rescans_one_to_one (hB : Holds B view) (hdepth : 4096 ≤ B.depth) {opts : MtpOpts}
    {disk : β} {acts : List (Act β)} (h : exec (next B) (build B opts disk) acts = some w) :
    (∀ w', (rescan B w').stuck = w'.stuck) ∧
      (∀ st disk, .rescanned st disk ∈ w.log → st.objs.length < 2 ^ 32 - 1 →
        OneToOne st.objs st.nStores (view disk)) ∧
      (w.st.objs.length < 2 ^ 32 - 1 →
        (∀ o, ¬Relation.TransGen (fun o d => o ∈ w.st.objs ∧ d ∈ w.st.objs ∧ o.alive = true ∧
          d.alive = true ∧ o.parent = d.handle) o o) ∧
        (∀ handle ancestor, isDescendant w.st.objs handle ancestor ≠ none) ∧
        ∀ w', w'.st.objs = w.st.objs → ∀ o ∈ w.st.objs, o.alive = true → ∀ dsi dest name,
          (copyTree B dsi (w.st.objs.length + 1) w' o dest name).stuck = w'.stuck) := by
  have hrun := mirrored_run hB hdepth h
  refine ⟨fun w' => (refreshed_rescan hB hdepth w').stuck, fun st disk he hlen => ?_, fun hlen => ?_⟩
  · exact (hrun.scans st disk he).oneToOne (hB.proper disk) (by omega)
  · obtain ⟨disk, ht⟩ := hrun.table
    have hdown := ht.mirrors.descends (hB.proper disk) ht.numbered (by omega)
    refine ⟨fun o ho => ?_, isDescendant_ends hdown, fun w' hw' o ho halive dsi dest name => ?_⟩
    · have hlt : ∀ {o d}, Relation.TransGen (fun o d => o ∈ w.st.objs ∧ d ∈ w.st.objs ∧
          o.alive = true ∧ d.alive = true ∧ o.parent = d.handle) o d →
          d.path.length < o.path.length := by
        intro o d hod
        induction hod with
        | single hs => exact hdown _ hs.1 _ hs.2.1 hs.2.2.1 hs.2.2.2.1 hs.2.2.2.2
        | tail _ hs ih => exact (hdown _ hs.1 _ hs.2.1 hs.2.2.1 hs.2.2.2.1 hs.2.2.2.2).trans ih
      exact lt_irrefl _ (hlt ho)
    · exact copyTree_ends hdown dsi hw' ho halive (Nat.lt_succ_of_le List.countP_le_length) dest name

end

/-- A directory with a file in it. -/
def sampleTree : Tree where
  ls dir := if dir = [] then [ascii "d"] else if dir = ascii "d" then [ascii "f"] else []
  info p :=
    if p = ascii "d" then some ⟨true, 0, 0⟩
    else if p = ascii "d/f" then some ⟨false, 3, 0⟩
    else none

theorem sampleTree_ls {dir n : CStr} (h : n ∈ sampleTree.ls dir) :
    dir = [] ∧ n = ascii "d" ∨ dir = ascii "d" ∧ n = ascii "f" := by
  unfold sampleTree at h
  dsimp only at h
  split_ifs at h with h0 h1
  · exact .inl ⟨h0, List.mem_singleton.mp h⟩
  · exact .inr ⟨h1, List.mem_singleton.mp h⟩
  · exact absurd h List.not_mem_nil

theorem sampleTree_proper : sampleTree.Proper where
  plain dir _ n hn := by
    rcases sampleTree_ls hn with ⟨rfl, rfl⟩ | ⟨rfl, rfl⟩ <;> exact ⟨by decide, by decide⟩
  short dir _ n hn := by rcases sampleTree_ls hn with ⟨rfl, rfl⟩ | ⟨rfl, rfl⟩ <;> decide
  nodup dir _ := by
    unfold sampleTree
    dsimp only
    split_ifs <;> simp

theorem rescans_one_to_one_sample :
    OneToOne (build (.ofTrees (fun _ _ => sampleTree) fun (_ : Unit) _ => (0, ()))
      ⟨false, none, none, none, 2⟩ ()).st.objs 2 fun _ => sampleTree :=
  (rescans_one_to_one (holds_ofTrees _ fun _ _ => sampleTree_proper) (by decide)
    (show exec _ _ [] = some _ from rfl)).2.1 _ () (List.mem_append_right _ (List.mem_singleton_self _)) (by decide)

end Usbip.Mtp
