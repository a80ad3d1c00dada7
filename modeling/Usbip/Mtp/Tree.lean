import Usbip.Mtp.Permission
import Usbip.Mtp.Table

/-! What a backend holds: a tree of names in each store, as its `listdir` and `get_info` show it. -/

namespace Usbip.Mtp

open Lib

/-- A store: the names of a directory, and what stands at a path. -/
structure Tree where
  ls : CStr → List CStr
  info : CStr → Option Info

namespace Tree

variable (T : Tree)

/-- The directories, from the root. -/
inductive Dir : CStr → Prop
  | root : Dir []
  | sub {dir n : CStr} {i : Info} : Dir dir → n ∈ T.ls dir →
      T.info (joinPath slash dir n) = some i → i.isDir = true → Dir (joinPath slash dir n)

/-- The entries below a directory. -/
inductive Below : CStr → CStr → Prop
  | entry {dir n : CStr} {i : Info} : n ∈ T.ls dir → T.info (joinPath slash dir n) = some i →
      Below dir (joinPath slash dir n)
  | deep {dir n : CStr} {i : Info} {p : CStr} : n ∈ T.ls dir →
      T.info (joinPath slash dir n) = some i → i.isDir = true →
      Below (joinPath slash dir n) p → Below dir p

/-- The entries of the store. -/
def Entry (p : CStr) : Prop := T.Below [] p

/-- The names are proper: not empty, without a slash, shorter than 256, each listed once, and the
paths are shorter than 4096. -/
structure Proper : Prop where
  plain : ∀ dir, T.Dir dir → ∀ n ∈ T.ls dir, Plain slash n
  short : ∀ dir, T.Dir dir → ∀ n ∈ T.ls dir,
    n.length < 256 ∧ (joinPath slash dir n).length < 4096
  nodup : ∀ dir, T.Dir dir → (T.ls dir).Nodup

variable {T}

/-- A name of a directory, with what is below it. -/
def Part (T : Tree) (dir n p : CStr) : Prop :=
  ∃ i, T.info (joinPath slash dir n) = some i ∧
    (p = joinPath slash dir n ∨ i.isDir = true ∧ T.Below (joinPath slash dir n) p)

theorem below_iff {dir p : CStr} : T.Below dir p ↔ ∃ n ∈ T.ls dir, T.Part dir n p := by
  constructor
  · intro h
    cases h with
    | entry hn hi => exact ⟨_, hn, _, hi, .inl rfl⟩
    | deep hn hi hd hp => exact ⟨_, hn, _, hi, .inr ⟨hd, hp⟩⟩
  · rintro ⟨n, hn, i, hi, rfl | ⟨hd, hp⟩⟩
    · exact .entry hn hi
    · exact .deep hn hi hd hp

/-- The directory and the name of an entry. -/
theorem Below.name {dir p : CStr} (hdir : T.Dir dir) (h : T.Below dir p) :
    ∃ d, T.Dir d ∧ ∃ n ∈ T.ls d, p = joinPath slash d n := by
  induction h with
  | entry hn _ => exact ⟨_, hdir, _, hn, rfl⟩
  | deep hn hi hd _ ih => exact ih (.sub hdir hn hi hd)

/-- What is below a directory is an entry. -/
theorem Dir.entry_of_below {dir p : CStr} (hdir : T.Dir dir) (h : T.Below dir p) : T.Entry p := by
  induction hdir with
  | root => exact h
  | sub _ hn hi hd ih => exact ih (.deep hn hi hd h)

theorem Dir.entry {dir : CStr} (hdir : T.Dir dir) (hne : dir ≠ []) :
    T.Entry dir ∧ ∃ i, T.info dir = some i ∧ i.isDir = true := by
  cases hdir with
  | root => exact absurd rfl hne
  | sub hdir hn hi hd => exact ⟨hdir.entry_of_below (.entry hn hi), _, hi, hd⟩

namespace Proper

variable (hT : T.Proper)
include hT

theorem dir_length {dir : CStr} (h : T.Dir dir) : dir.length < 4096 := by
  cases h with
  | root => exact Nat.zero_lt_succ _
  | sub hdir hn _ _ => exact (hT.short _ hdir _ hn).2

/-- An entry below a directory is below one of its names. -/
theorem below_under {dir p : CStr} (hdir : T.Dir dir) (h : T.Below dir p) :
    ∃ n ∈ T.ls dir, Under slash (joinPath slash dir n) p := by
  induction h with
  | entry hn _ => exact ⟨_, hn, .refl _⟩
  | deep hn hi hd _ ih =>
    obtain ⟨n', -, hunder⟩ := ih (.sub hdir hn hi hd)
    exact ⟨_, hn, hunder.of_joinPath (joinPath_ne_nil _ (hT.plain _ hdir _ hn).1)⟩

theorem part_under {dir n p : CStr} (hdir : T.Dir dir) (hn : n ∈ T.ls dir) (h : T.Part dir n p) :
    Under slash (joinPath slash dir n) p := by
  obtain ⟨i, hi, rfl | ⟨hd, hp⟩⟩ := h
  · exact .refl _
  · obtain ⟨n', -, hunder⟩ := hT.below_under (.sub hdir hn hi hd) hp
    exact hunder.of_joinPath (joinPath_ne_nil _ (hT.plain dir hdir n hn).1)

theorem lt_of_part {dir n p : CStr} (hdir : T.Dir dir) (hn : n ∈ T.ls dir) (h : T.Part dir n p) :
    dir.length < p.length :=
  (length_lt_joinPath slash dir (hT.plain dir hdir n hn).1).trans_le (hT.part_under hdir hn h).length_le

theorem lt_of_below {dir p : CStr} (hdir : T.Dir dir) (h : T.Below dir p) :
    dir.length < p.length := by
  obtain ⟨n, hn, hpart⟩ := below_iff.mp h
  exact hT.lt_of_part hdir hn hpart

theorem entry_length {p : CStr} (h : T.Entry p) : p.length < 4096 := by
  obtain ⟨d, hd, n, hn, rfl⟩ := Below.name .root h
  exact (hT.short d hd n hn).2

/-- An entry below a path: the path is a directory, and the entry is below one of its names. -/
theorem under_entry {p q s : CStr} (hp : p ≠ []) (h : T.Entry q) (hq : q = p ++ slash :: s) :
    T.Dir p ∧ ∃ n ∈ T.ls p, T.Entry (joinPath slash p n) ∧ Under slash (joinPath slash p n) q := by
  induction hlen : q.length using Nat.strong_induction_on generalizing q s with
  | h len ih =>
    obtain ⟨d, hd, n, hn, hqd⟩ := Below.name .root h
    have hplain := (hT.plain d hd n hn).2
    by_cases hdp : d = p
    · subst hdp
      exact ⟨hd, n, hn, hqd ▸ h, hqd ▸ .refl _⟩
    · have hd0 : d ≠ [] := by
        rintro rfl
        rw [joinPath_nil] at hqd
        exact hplain (hqd ▸ hq ▸ by simp)
      have heq := hqd.symm.trans hq
      rw [joinPath_of_ne_nil hd0] at heq
      rcases List.append_eq_append_iff.mp heq with ⟨t, rfl, ht⟩ | ⟨t, rfl, ht⟩
      · cases t with
        | nil => exact absurd (List.append_nil d).symm hdp
        | cons c t => exact absurd ((List.cons.inj ht).2 ▸ by simp) hplain
      · cases t with
        | nil => exact absurd (List.append_nil p) hdp
        | cons c t =>
          obtain ⟨rfl, -⟩ := List.cons.inj ht
          have hlt : (p ++ slash :: t).length < len := by
            rw [← hlen, hqd]
            exact length_lt_joinPath slash _ (hT.plain _ hd n hn).1
          obtain ⟨hDir, n', hn', hentry, hunder⟩ := ih _ hlt (hd.entry hd0).1 rfl rfl
          refine ⟨hDir, n', hn', hentry, ?_⟩
          rw [hqd, joinPath_of_ne_nil hd0]
          exact hunder.append n

/-- The parts of two names have nothing in common. -/
theorem part_unique {dir n n' p : CStr} (hdir : T.Dir dir) (hn : n ∈ T.ls dir)
    (hn' : n' ∈ T.ls dir) (h : T.Part dir n p) (h' : T.Part dir n' p) : n = n' :=
  (hT.part_under hdir hn h).unique (hT.plain dir hdir n hn).2 (hT.plain dir hdir n' hn').2
    (hT.part_under hdir hn' h')

end Proper

end Tree

/-- A backend that holds proper trees, which do not change while they are looked at. Nothing is said
of what the other calls do to them. -/
structure Holds {β : Type} (B : Backend β) (view : β → Nat → Tree) : Prop where
  proper : ∀ disk si, (view disk si).Proper
  listdir : ∀ disk si path, (view disk si).Dir path →
    (B.call disk (.listdir si path)).1 = (view disk si).ls path
  listdir_view : ∀ disk si path, view (B.call disk (.listdir si path)).2 = view disk
  getInfo : ∀ disk si dir, (view disk si).Dir dir → ∀ n ∈ (view disk si).ls dir,
    (B.call disk (.getInfo si (joinPath slash dir n))).1 =
      (view disk si).info (joinPath slash dir n)
  getInfo_view : ∀ disk si path, view (B.call disk (.getInfo si path)).2 = view disk

/-- The backend that holds the trees of its state, with what its other calls return and come to. -/
def Backend.ofTrees {β : Type} (trees : β → Nat → Tree) (rc : β → Call → Int × β) : Backend β where
  call disk
    | .listdir si path => ((trees disk si).ls path, disk)
    | .getInfo si path => ((trees disk si).info path, disk)
    | .read .. => (⟨0, []⟩, disk)
    | .diskUsage _ => ((0, 0), disk)
    | .description _ => (none, disk)
    | .write si path data len => rc disk (.write si path data len)
    | .makeDir si path => rc disk (.makeDir si path)
    | .remove si path => rc disk (.remove si path)
    | .rename si path newpath => rc disk (.rename si path newpath)
    | .pwrite si path off data len => rc disk (.pwrite si path off data len)
    | .truncate si path size => rc disk (.truncate si path size)
  hasPwrite := true
  hasTruncate := true
  hasDiskUsage := true
  hasDescription := true
  dateText := fun _ => []
  depth := 4096

theorem holds_ofTrees {β : Type} {trees : β → Nat → Tree} (rc : β → Call → Int × β)
    (h : ∀ disk si, (trees disk si).Proper) : Holds (.ofTrees trees rc) trees where
  proper := h
  listdir _ _ _ _ := rfl
  listdir_view _ _ _ := rfl
  getInfo _ _ _ _ _ _ := rfl
  getInfo_view _ _ _ := rfl

/-- A store with files in its root and nothing else. -/
def Tree.files (names : List CStr) : Tree where
  ls dir := if dir = [] then names else []
  info p := if p ∈ names then some ⟨false, 0, 0⟩ else none

theorem Tree.mem_files_ls {names : List CStr} {dir n : CStr} :
    n ∈ (Tree.files names).ls dir ↔ dir = [] ∧ n ∈ names := by
  unfold files
  dsimp only
  split_ifs with h <;> simp [h]

theorem Tree.files_entry {names : List CStr} (p : CStr) : (Tree.files names).Entry p ↔ p ∈ names := by
  rw [Entry, below_iff]
  constructor
  · rintro ⟨n, hn, i, hi, rfl | ⟨hd, -⟩⟩
    · exact (mem_files_ls.mp hn).2
    · unfold files at hi
      dsimp only at hi
      split_ifs at hi
      obtain rfl := Option.some.inj hi
      cases hd
  · intro hp
    exact ⟨p, mem_files_ls.mpr ⟨rfl, hp⟩, ⟨false, 0, 0⟩, if_pos hp, .inl rfl⟩

theorem Tree.files_proper {names : List CStr} (hplain : ∀ n ∈ names, Plain slash n ∧ n.length < 256)
    (hnodup : names.Nodup) : (Tree.files names).Proper where
  plain _ _ n hn := (hplain n (mem_files_ls.mp hn).2).1
  short _ _ n hn := by
    obtain ⟨rfl, hn⟩ := mem_files_ls.mp hn
    have := (hplain n hn).2
    exact ⟨this, by rw [joinPath_nil]; omega⟩
  nodup dir _ := by
    unfold files
    dsimp only
    split_ifs <;> simp [hnodup]

end Usbip.Mtp
