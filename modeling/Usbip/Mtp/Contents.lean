import Usbip.Lib.Graft
import Usbip.Mtp.Mirror

/-! What the stores of a backend hold, with the contents of the files, and what its calls do to it
where they succeed. -/

namespace Usbip.Mtp

open Lib

inductive Node
  | dir
  | file (data : List UInt8)
  deriving DecidableEq, Repr

section
variable {β : Type} (B : Backend β) (files : β → Nat → CStr → Option Node)

/-- What a call returns that changes a store, and how many bytes a read returns. -/
def Backend.rc (disk : β) : Call → Int
  | .read si p off want => ReadResult.rc (B.call disk (.read si p off want)).1
  | .write si p data len => (B.call disk (.write si p data len)).1
  | .makeDir si p => (B.call disk (.makeDir si p)).1
  | .remove si p => (B.call disk (.remove si p)).1
  | _ => 0

/-- The bytes that a read puts into the buffer. -/
def Backend.got (disk : β) (si : Nat) (p : CStr) (want : Int) : List UInt8 :=
  ReadResult.data (B.call disk (.read si p 0 want)).1

/-- A call succeeds. A read does where it returns the whole file. -/
def Call.Succeeds (disk : β) (c : Call) : Prop :=
  match c with
  | .read si p _ _ => ∀ data, files disk si p = some (.file data) → B.rc disk c = data.length
  | _ => B.rc disk c = 0

/-- The backend holds trees and the contents of their files. A call that succeeds does what it is
for, and one that fails may change what it is about. -/
structure Stored (trees : β → Nat → Tree) : Prop where
  holds : Holds B trees
  entry : ∀ disk si p, p ≠ [] → (files disk si p ≠ none ↔ (trees disk si).Entry p)
  node : ∀ disk si p i, (trees disk si).Entry p → (trees disk si).info p = some i →
    if i.isDir then files disk si p = some .dir
    else ∃ data, files disk si p = some (.file data) ∧ i.size.toNat = data.length
  query : ∀ disk c, c.mutates = false → files (B.call disk c).2 = files disk
  read : ∀ disk si p want data, files disk si p = some (.file data) →
    B.rc disk (.read si p 0 want) ≤ max 0 want ∧
      (B.got disk si p want).take (B.rc disk (.read si p 0 want)).toNat =
        data.take (B.rc disk (.read si p 0 want)).toNat
  write : ∀ disk si p data, Call.Succeeds B files disk (.write si p data data.length) →
    files (B.call disk (.write si p data data.length)).2 si p = some (.file data)
  write_frame : ∀ disk si p data len si' q, ¬(si' = si ∧ q = p) →
    files (B.call disk (.write si p data len)).2 si' q = files disk si' q
  makeDir : ∀ disk si p, Call.Succeeds B files disk (.makeDir si p) →
    files disk si p = none ∧ files (B.call disk (.makeDir si p)).2 si p = some .dir
  makeDir_frame : ∀ disk si p si' q, ¬(si' = si ∧ q = p) →
    files (B.call disk (.makeDir si p)).2 si' q = files disk si' q
  remove : ∀ disk si p, Call.Succeeds B files disk (.remove si p) →
    ∀ q, Under slash p q → files (B.call disk (.remove si p)).2 si q = none
  remove_frame : ∀ disk si p si' q, ¬(si' = si ∧ Under slash p q) →
    files (B.call disk (.remove si p)).2 si' q = files disk si' q

end

section
variable {β : Type} {B : Backend β} {files : β → Nat → CStr → Option Node}
  {trees : β → Nat → Tree}

/-- Only a directory has anything below it. -/
theorem Stored.dir_of_below (hB : Stored B files trees) {disk : β} {si : Nat} {p s : CStr}
    (hp : p ≠ []) (h : files disk si (p ++ slash :: s) ≠ none) : files disk si p = some .dir := by
  have hentry := (hB.entry disk si _ (by simp)).mp h
  obtain ⟨hdir, -⟩ := (hB.holds.proper disk si).under_entry hp hentry rfl
  obtain ⟨hp', i, hi, hd⟩ := hdir.entry hp
  have hnode := hB.node disk si p i hp' hi
  rwa [if_pos hd] at hnode

theorem Stored.below_none (hB : Stored B files trees) {disk : β} {si : Nat} {p : CStr}
    (hp : p ≠ []) (h : files disk si p ≠ some .dir) (s : CStr) :
    files disk si (p ++ slash :: s) = none := by
  by_contra hne
  exact h (hB.dir_of_below hp hne)

/-- A table shows what a store holds. -/
structure Source (objs : List Obj) (si : Nat) (G : CStr → Option Node) : Prop where
  path : ∀ o ∈ objs, o.alive = true → o.si = si →
    Plain slash o.name ∧ o.name.length < 256 ∧ o.path ≠ [] ∧ o.path.length < 4096
  dir : ∀ o ∈ objs, o.alive = true → o.si = si → o.isDir = true → G o.path = some .dir ∧
    ∀ s, G (o.path ++ slash :: s) ≠ none → ∃ c ∈ objs, c.alive = true ∧ c.parent = o.handle ∧
      Under slash (joinPath slash o.path c.name) (o.path ++ slash :: s)
  file : ∀ o ∈ objs, o.alive = true → o.si = si → o.isDir = false →
    ∃ data, G o.path = some (.file data) ∧ o.size.toNat = data.length ∧
      ∀ s, G (o.path ++ slash :: s) = none
  child : ∀ o ∈ objs, ∀ c ∈ objs, o.alive = true → c.alive = true → o.si = si →
    c.parent = o.handle → c.si = si ∧ c.path = joinPath slash o.path c.name

/-- A table that mirrors the trees does. -/
theorem Mirrors.source {objs : List Obj} {nextHandle : UInt32} {nStores : Nat} {disk : β}
    (hm : Mirrors objs nStores (trees disk)) (hnum : Numbered objs nextHandle)
    (hlen : objs.length < 2 ^ 32) (hB : Stored B files trees) (si : Nat) :
    Source objs si (files disk si) := by
  have hT := hB.holds.proper disk
  have hplaced : ∀ o ∈ objs, o.alive = true → o.si = si → o.path ≠ [] ∧
      (trees disk si).Entry o.path ∧ ∃ i, (trees disk si).info o.path = some i ∧
        o.isDir = i.isDir ∧ o.size = if i.isDir then 0 else i.size := by
    rintro o ho halive rfl
    obtain ⟨dir, hDir, hn, hpath, hs⟩ := hm.placed ho halive
    obtain ⟨i, hi, hdir, -, hsize⟩ := hs.info
    have hentry := (hm.alive o ho halive).2
    rw [← hpath] at hi
    refine ⟨?_, hentry, i, hi, hdir, hsize⟩
    rw [hpath]
    exact joinPath_ne_nil dir ((hT o.si).plain dir hDir _ hn).1
  constructor
  · intro o ho halive hsi
    obtain ⟨hne, hentry, -⟩ := hplaced o ho halive hsi
    obtain ⟨dir, hDir, hn, -, -⟩ := hm.placed ho halive
    exact ⟨(hT o.si).plain dir hDir _ hn, ((hT o.si).short dir hDir _ hn).1, hne,
      (hT si).entry_length hentry⟩
  · intro o ho halive hsi hdir
    obtain ⟨hne, hentry, i, hi, hisDir, -⟩ := hplaced o ho halive hsi
    have hnode := hB.node disk si o.path i hentry hi
    rw [if_pos (hisDir ▸ hdir)] at hnode
    refine ⟨hnode, fun s hs => ?_⟩
    obtain ⟨hDir, n, hn, hentry', hunder⟩ := (hT si).under_entry hne
      ((hB.entry disk si _ (by simp)).mp hs) rfl
    obtain ⟨dir, n', c, hpath, hDir', hn', hshows⟩ := hm.shown si (hsi ▸ (hm.alive o ho halive).1) _
      hentry'
    obtain ⟨rfl, rfl⟩ := joinPath_injective ((hT si).plain _ hDir n hn).2
      ((hT si).plain dir hDir' n' hn').2 hpath
    have hparent := hshows.parent
    rw [ParentAt, if_neg hne] at hparent
    obtain ⟨d, hd, -, -, hhandle⟩ := hparent
    rw [← hsi, hm.firsts o ho halive] at hd
    obtain rfl := Option.some.inj hd
    exact ⟨c, (objByPath_some hshows.found).1, hshows.alive, hhandle.symm, hshows.name ▸ hunder⟩
  · intro o ho halive hsi hfile
    obtain ⟨hne, hentry, i, hi, hisDir, hsize⟩ := hplaced o ho halive hsi
    have hnot : ¬i.isDir = true := by rw [← hisDir, hfile]; decide
    have hnode := hB.node disk si o.path i hentry hi
    rw [if_neg hnot] at hnode hsize
    obtain ⟨data, hdata, hlength⟩ := hnode
    exact ⟨data, hdata, hsize ▸ hlength, hB.below_none hne (by rw [hdata]; simp)⟩
  · intro o ho c hc halive hcalive hsi hparent
    obtain ⟨dir, hDir, hn, hpath, hs⟩ := hm.placed hc hcalive
    have hat := hs.parent
    rw [ParentAt] at hat
    split at hat
    · exact absurd (hparent.symm.trans hat) (hnum.ne_zero hlen ho)
    · obtain ⟨d, hd, -, -, hhandle⟩ := hat
      obtain ⟨hmem, hdsi, rfl⟩ := objByPath_some hd
      obtain rfl := hnum.eq_of_handle hlen hmem ho (hhandle.trans hparent)
      exact ⟨hdsi.symm.trans hsi, hpath⟩

end

end Usbip.Mtp
